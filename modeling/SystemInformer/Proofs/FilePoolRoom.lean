import SystemInformer.Proofs.FilePoolSafety

/-!
# How much room an allocation from a file pool gives

The number of blocks is the size with the block header in front, rounded up. The rounding is done
in 32 bits, and a size so large that the sum wraps comes out at no block or at one, for the sum
that is left is less than two blocks. Every other size gets the blocks that it needs, or the call
fails where a segment has fewer.
-/

namespace SystemInformer.PhLib

/-- The sum that is rounded up does not wrap. -/
def RoundsUp (segmentShift : Nat) (size : UInt32) : Prop :=
  fpBlockBody + size.toNat + blockSize segmentShift - 1 < ulongRange

/-- More than the blocks of a segment that are not its header's. -/
def ExceedsSegment (segmentShift : Nat) (size : UInt32) : Prop :=
  (fpBlockCount - segmentHeaderBlockSpan segmentShift) * blockSize segmentShift <
    fpBlockBody + size.toNat

section

variable {segmentShift : Nat} {size : UInt32}

theorem blockSize_bounds (h : 16 ≤ segmentShift) (h' : segmentShift ≤ 28) :
    32 ≤ blockSize segmentShift ∧ blockSize segmentShift ≤ 131072 := by
  have hshift : blockShift segmentShift = segmentShift - 11 := rfl
  rw [blockSize, hshift]
  have htwo : 0 < 2 := by decide
  exact ⟨Nat.pow_le_pow_right htwo (by omega : 5 ≤ segmentShift - 11),
    Nat.pow_le_pow_right htwo (by omega : segmentShift - 11 ≤ 17)⟩

theorem numberOfBlocksFor_of_roundsUp (h : RoundsUp segmentShift size) :
    numberOfBlocksFor segmentShift size =
      (fpBlockBody + size.toNat + blockSize segmentShift - 1) / blockSize segmentShift := by
  rw [numberOfBlocksFor, Nat.mod_eq_of_lt h]

theorem blocks_of_roundsUp (h : RoundsUp segmentShift size) :
    fpBlockBody + size.toNat ≤ numberOfBlocksFor segmentShift size * blockSize segmentShift ∧
      numberOfBlocksFor segmentShift size * blockSize segmentShift <
        fpBlockBody + size.toNat + blockSize segmentShift := by
  have hpos : 0 < blockSize segmentShift := Nat.two_pow_pos _
  have hdiv := Nat.div_add_mod (fpBlockBody + size.toNat + blockSize segmentShift - 1)
    (blockSize segmentShift)
  have hmod := Nat.mod_lt (fpBlockBody + size.toNat + blockSize segmentShift - 1) hpos
  rw [numberOfBlocksFor_of_roundsUp h, Nat.mul_comm]
  omega

theorem blocks_of_wraps (h : 16 ≤ segmentShift) (h' : segmentShift ≤ 28)
    (hwrap : ¬ RoundsUp segmentShift size) : numberOfBlocksFor segmentShift size ≤ 1 := by
  obtain ⟨hlow, hhigh⟩ := blockSize_bounds h h'
  have hsize := size.toNat_lt
  have hrange : ulongRange = 2 ^ 32 := rfl
  have hbody : fpBlockBody = 16 := rfl
  rw [RoundsUp] at hwrap
  have hlt : (fpBlockBody + size.toNat + blockSize segmentShift - 1) % ulongRange <
      2 * blockSize segmentShift := by
    rw [Nat.mod_eq_sub_mod (by omega), Nat.mod_eq_of_lt (by omega)]
    omega
  rw [numberOfBlocksFor]
  have := (Nat.div_lt_iff_lt_mul (by omega)).mpr hlt
  omega

end

/-! ## The blocks of an allocation -/

/-- The pool as `PhFppAllocateBlocks` left it in an allocation of `n` blocks, and the block. -/
inductive BlockTaken (env : PoolEnv) (fuel : Nat) (p : FilePool) (n : Nat) :
    FilePool → FpPointer → Prop where
  | found {q k i start} :
      scanLists env n fuel (phFppComputeFreeListIndex p.segmentShift n + 1) p 0 =
        some (q, k, .allocated i start) →
      BlockTaken env fuel p n q ⟨i, start * blockSize q.segmentShift + fpBlockBody⟩
  | fresh {q k q' i q'' start} :
      scanLists env n fuel (phFppComputeFreeListIndex p.segmentShift n + 1) p 0 =
        some (q, k, .exhausted) →
      phFppAllocateSegment env q = some (q', some i) →
      phFppAllocateBlocks env q' i n = (q'', some start) →
      BlockTaken env fuel p n q'' ⟨i, start * blockSize q''.segmentShift + fpBlockBody⟩

theorem phFppAllocateBlocks_span {env : PoolEnv} {p q : FilePool} {i n start : Nat}
    (h : phFppAllocateBlocks env p i n = (q, some start)) :
    spanOf q ⟨i, start * blockSize q.segmentShift + fpBlockBody⟩ = n := by
  rw [phFppAllocateBlocks] at h
  split at h
  · cases h
  · obtain ⟨hq, hstart⟩ := Prod.mk.inj h
    obtain rfl := Option.some.inj hstart
    have hshift : q.segmentShift = p.segmentShift := by
      rw [← hq]
      rfl
    rw [spanOf, headerOf, Nat.add_sub_cancel, hshift, ← hq]
    exact FilePool.get_set_self

theorem scanList_taken {env : PoolEnv} {n fuel i k start : Nat} {p q : FilePool}
    (h : scanList env n fuel p k = some (q, .allocated i start)) :
    ∃ p', phFppAllocateBlocks env p' i n = (q, some start) := by
  induction fuel generalizing p k with
  | zero => cases h
  | succ fuel ih =>
      rw [scanList] at h
      split at h
      · cases h
      · simp only at h
        split at h
        · cases h
        · split at h
          · next hblocks =>
              obtain ⟨rfl, hresult⟩ := Prod.mk.inj (Option.some.inj h)
              obtain ⟨rfl, rfl⟩ := ScanResult.allocated.inj hresult
              exact ⟨_, hblocks⟩
          · exact ih h

theorem scanLists_taken {env : PoolEnv} {n fuel m k k' i start : Nat} {p q : FilePool}
    (h : scanLists env n fuel m p k = some (q, k', .allocated i start)) :
    ∃ p', phFppAllocateBlocks env p' i n = (q, some start) := by
  induction m generalizing p k with
  | zero => cases h
  | succ m ih =>
      rw [scanLists] at h
      split at h
      · cases h
      · exact ih h
      · next hscan =>
          obtain ⟨rfl, hresult⟩ := Prod.mk.inj (Option.some.inj h)
          obtain ⟨-, rfl⟩ := Prod.mk.inj hresult
          exact scanList_taken hscan

section

variable {env : PoolEnv} {fuel n : Nat} {p p' q : FilePool} {size : UInt32} {block : FpPointer}

theorem BlockTaken.span (h : BlockTaken env fuel p n q block) : spanOf q block = n := by
  cases h with
  | found hscan =>
      obtain ⟨p', hblocks⟩ := scanLists_taken hscan
      exact phFppAllocateBlocks_span hblocks
  | fresh hscan hsegment hblocks => exact phFppAllocateBlocks_span hblocks

theorem exists_blockTaken (h : phAllocateFilePool env fuel p size = some (p', some block)) :
    numberOfBlocksFor p.segmentShift size ≤ fpBlockCount - segmentHeaderBlockSpan p.segmentShift ∧
      ∃ q, BlockTaken env fuel p (numberOfBlocksFor p.segmentShift size) q block := by
  have hlarge : ¬ numberOfBlocksFor p.segmentShift size >
      fpBlockCount - segmentHeaderBlockSpan p.segmentShift := by
    intro hlarge
    rw [phAllocateFilePool] at h
    simp only [if_pos hlarge] at h
    cases h
  refine ⟨Nat.not_lt.mp hlarge, ?_⟩
  generalize hr : some block = r at h
  cases phAllocateFilePool_cases h with
  | tooLarge => cases hr
  | notMapped => cases hr
  | found hscan =>
      obtain rfl := Option.some.inj hr
      exact ⟨_, .found hscan⟩
  | notExtended => cases hr
  | noRoom => cases hr
  | fresh hscan hsegment hblocks =>
      obtain rfl := Option.some.inj hr
      exact ⟨_, .fresh hscan hsegment hblocks⟩

end

/-! ## The condition -/

/-- A block that is returned has room for the size behind its header, and a size that no segment
has room for is refused. -/
def GivesRoom (env : PoolEnv) (fuel : Nat) (p : FilePool) (size : UInt32) : Prop :=
  ∀ p' r, phAllocateFilePool env fuel p size = some (p', r) →
    (∀ block, r = some block →
      ∃ q, BlockTaken env fuel p (numberOfBlocksFor p.segmentShift size) q block ∧
        fpBlockBody + size.toNat ≤ spanOf q block * blockSize p.segmentShift) ∧
    (ExceedsSegment p.segmentShift size → r = none)

theorem givesRoom_of_roundsUp {env : PoolEnv} {fuel : Nat} {p : FilePool} {size : UInt32}
    (h : RoundsUp p.segmentShift size) : GivesRoom env fuel p size := by
  intro p' r halloc
  obtain ⟨henough, -⟩ := blocks_of_roundsUp h
  refine ⟨fun block hblock => ?_, fun hexceeds => ?_⟩
  · subst hblock
    obtain ⟨-, q, htaken⟩ := exists_blockTaken halloc
    refine ⟨q, htaken, ?_⟩
    rw [htaken.span]
    exact henough
  · cases r with
    | none => rfl
    | some block =>
        obtain ⟨hfew, -⟩ := exists_blockTaken halloc
        have hmul := Nat.mul_le_mul_right (blockSize p.segmentShift) hfew
        rw [ExceedsSegment] at hexceeds
        omega

def ScanResult.found : ScanResult → Bool
  | .allocated _ _ => true
  | _ => false

theorem created_scans : ∀ s ∈ List.range' 16 13, ∀ n ∈ List.range 2,
    n ≤ fpBlockCount - segmentHeaderBlockSpan s ∧
    ((phCreateFilePool calmEnv s).bind fun p =>
      (scanLists calmEnv n 2 (phFppComputeFreeListIndex s n + 1) p 0).map
        fun r => (p.segmentShift, r.2.2.found)) = some (s, true) := by
  decide +kernel

theorem created_allocates {segmentShift : Nat} {size : UInt32} (h : 16 ≤ segmentShift)
    (h' : segmentShift ≤ 28) (hn : numberOfBlocksFor segmentShift size ≤ 1) :
    ∃ p p' block, phCreateFilePool calmEnv segmentShift = some p ∧ p.segmentShift = segmentShift ∧
      phAllocateFilePool calmEnv 2 p size = some (p', some block) := by
  obtain ⟨hfew, hscans⟩ := created_scans segmentShift (List.mem_range'_1.mpr ⟨h, by omega⟩)
    (numberOfBlocksFor segmentShift size) (List.mem_range.mpr (by omega))
  obtain ⟨p, hcreate, hsome⟩ := Option.bind_eq_some_iff.mp hscans
  obtain ⟨⟨q, k, result⟩, hscan, hfound⟩ := Option.map_eq_some_iff.mp hsome
  obtain ⟨hshift, hresult⟩ := Prod.mk.inj hfound
  cases result with
  | exhausted => cases hresult
  | notMapped => cases hresult
  | allocated i start =>
      refine ⟨p, (blockAllocated calmEnv q k i start).1,
        ⟨i, start * blockSize q.segmentShift + fpBlockBody⟩, hcreate, hshift, ?_⟩
      rw [phAllocateFilePool]
      simp only [hshift]
      rw [if_neg (Nat.not_lt.mpr hfew), hscan]
      rfl

/-- An allocation gives the room that it was asked for exactly for the sizes whose rounding does
not wrap. -/
theorem allocate_givesRoom_iff {segmentShift : Nat} (h : 16 ≤ segmentShift)
    (h' : segmentShift ≤ 28) (size : UInt32) :
    (∀ env fuel p, p.segmentShift = segmentShift → GivesRoom env fuel p size) ↔
      RoundsUp segmentShift size := by
  constructor
  · intro hroom
    by_contra hwrap
    have hn := blocks_of_wraps h h' hwrap
    obtain ⟨p, p', block, -, hshift, halloc⟩ := created_allocates h h' hn
    obtain ⟨q, htaken, henough⟩ := (hroom calmEnv 2 p hshift p' _ halloc).1 block rfl
    obtain ⟨hlow, hhigh⟩ := blockSize_bounds h h'
    have hmul := Nat.mul_le_mul_right (blockSize segmentShift) hn
    rw [htaken.span, hshift] at henough
    have hrange : ulongRange = 2 ^ 32 := rfl
    rw [RoundsUp] at hwrap
    omega
  · intro hrounds env fuel p hshift
    exact givesRoom_of_roundsUp (by rw [hshift]; exact hrounds)

theorem allocate_givesRoom_iff_default :
    (∀ env fuel p, p.segmentShift = phpDefaultSegmentShift → GivesRoom env fuel p 100) ↔
      RoundsUp phpDefaultSegmentShift 100 :=
  allocate_givesRoom_iff (by decide) (by decide) 100

/-- The largest size of all gets one block of 128 bytes in a pool of the default segment shift. -/
theorem allocate_wraps :
    ∃ p p' block, PoolRun calmEnv phpDefaultSegmentShift p [] ∧
      phAllocateFilePool calmEnv 2 p 0xFFFFFFFF = some (p', some block) ∧ spanOf p' block = 1 ∧
      ¬ GivesRoom calmEnv 2 p 0xFFFFFFFF := by
  have heval : ((phCreateFilePool calmEnv phpDefaultSegmentShift).bind fun p =>
      (phAllocateFilePool calmEnv 2 p 0xFFFFFFFF).map fun r =>
        (p.segmentShift, r.2.map (spanOf r.1))) = some (18, some 1) := by
    decide +kernel
  obtain ⟨p, hcreate, hsome⟩ := Option.bind_eq_some_iff.mp heval
  obtain ⟨⟨p', r⟩, halloc, hresult⟩ := Option.map_eq_some_iff.mp hsome
  obtain ⟨hshift, hspan⟩ := Prod.mk.inj hresult
  obtain ⟨block, rfl, hone⟩ := Option.map_eq_some_iff.mp hspan
  refine ⟨p, p', block, .create hcreate, halloc, hone, fun hroom => ?_⟩
  obtain ⟨q, htaken, henough⟩ := (hroom p' _ halloc).1 block rfl
  have hblocks : numberOfBlocksFor 18 0xFFFFFFFF * blockSize 18 = 128 := by decide
  have hsize : (0xFFFFFFFF : UInt32).toNat = 4294967295 := rfl
  rw [htaken.span, hshift, hblocks, hsize] at henough
  omega

end SystemInformer.PhLib
