import SystemInformer.Proofs.FilePoolFrame

/-!
# No two things of a file pool share a byte

A run is a pool that was created and then used: blocks are allocated, written to and
freed, and any mapping or extension may fail. Along a run the headers of every
segment stay marked as used, and the live blocks stay marked, apart from each other.
This needs segments of at least 256 kB: for smaller ones the file header already
runs into the block after it when the pool is created.
-/

namespace SystemInformer.PhLib

open Bitmap

/-! ## Inversion -/

/-- The ways in which an allocation of `n` blocks ends. -/
inductive Allocation (env : PoolEnv) (fuel : Nat) (p : FilePool) (n : Nat) :
    FilePool → Option FpPointer → Prop where
  | tooLarge : n > fpBlockCount - segmentHeaderBlockSpan p.segmentShift →
      Allocation env fuel p n p none
  | notMapped {q k} :
      scanLists env n fuel (phFppComputeFreeListIndex p.segmentShift n + 1) p 0 =
        some (q, k, .notMapped) →
      Allocation env fuel p n q none
  | found {q k i start} :
      scanLists env n fuel (phFppComputeFreeListIndex p.segmentShift n + 1) p 0 =
        some (q, k, .allocated i start) →
      Allocation env fuel p n (blockAllocated env q k i start).1
        (blockAllocated env q k i start).2
  | notExtended {q k q'} :
      scanLists env n fuel (phFppComputeFreeListIndex p.segmentShift n + 1) p 0 =
        some (q, k, .exhausted) →
      phFppAllocateSegment env q = some (q', none) → Allocation env fuel p n q' none
  | noRoom {q k q' i q''} :
      scanLists env n fuel (phFppComputeFreeListIndex p.segmentShift n + 1) p 0 =
        some (q, k, .exhausted) →
      phFppAllocateSegment env q = some (q', some i) →
      phFppAllocateBlocks env q' i n = (q'', none) → Allocation env fuel p n q'' none
  | fresh {q k q' i q'' start} :
      scanLists env n fuel (phFppComputeFreeListIndex p.segmentShift n + 1) p 0 =
        some (q, k, .exhausted) →
      phFppAllocateSegment env q = some (q', some i) →
      phFppAllocateBlocks env q' i n = (q'', some start) →
      Allocation env fuel p n (blockAllocated env q'' 0 i start).1
        (blockAllocated env q'' 0 i start).2

theorem phAllocateFilePool_cases {env : PoolEnv} {fuel : Nat} {p p' : FilePool} {size : UInt32}
    {r : Option FpPointer} (h : phAllocateFilePool env fuel p size = some (p', r)) :
    Allocation env fuel p (numberOfBlocksFor p.segmentShift size) p' r := by
  unfold phAllocateFilePool at h
  simp only at h
  split at h
  · next hlarge =>
      injection h with h
      injection h with h₁ h₂
      subst h₁ h₂
      exact .tooLarge hlarge
  · split at h
    · cases h
    · next hscan =>
        injection h with h
        injection h with h₁ h₂
        subst h₁ h₂
        exact .notMapped hscan
    · next hscan =>
        injection h with h
        have := Allocation.found hscan
        rwa [h] at this
    · next hscan =>
        split at h
        · cases h
        · next hseg =>
            injection h with h
            injection h with h₁ h₂
            subst h₁ h₂
            exact .notExtended hscan hseg
        · next hseg =>
            split at h
            · next hblocks =>
                injection h with h
                injection h with h₁ h₂
                subst h₁ h₂
                exact .noRoom hscan hseg hblocks
            · next hblocks =>
                injection h with h
                have := Allocation.fresh hscan hseg hblocks
                rwa [h] at this

/-- What a walk along free lists does: nothing but calls, or it takes blocks from a
segment there is. -/
def Scanned (p p' : FilePool) (n : Nat) : ScanResult → Prop
  | .exhausted | .notMapped => ∃ c, p' = { p with calls := c }
  | .allocated i start =>
      i < p.get .segmentCount ∧ ∃ c, Taken { p with calls := c } p' i start n

theorem Scanned.of_calls {p p' : FilePool} {c n : Nat} {r : ScanResult}
    (h : Scanned { p with calls := c } p' n r) : Scanned p p' n r := by
  cases r with
  | exhausted | notMapped => exact h
  | allocated i start => exact h

theorem scanList_spec {env : PoolEnv} {n fuel i : Nat} {p p' : FilePool} {r : ScanResult}
    (hp : FileOk p) (hused : ∀ k, k < p.get .segmentCount → HeaderUsed p k)
    (h : scanList env n fuel p i = some (p', r)) : Scanned p p' n r := by
  induction fuel generalizing p i with
  | zero => cases h
  | succ fuel ih =>
      unfold scanList at h
      split at h
      · injection h with h
        injection h with h₁ h₂
        subst h₁ h₂
        exact ⟨p.calls, rfl⟩
      · obtain ⟨⟨c, hcalls⟩, hlt⟩ := phFppReferenceSegment_spec env (i := i) hp.pos
        simp only [hcalls] at h
        split at h
        · injection h with h
          injection h with h₁ h₂
          subst h₁ h₂
          exact ⟨c, rfl⟩
        · next href =>
            have hi := hlt (Bool.eq_true_of_not_eq_false href)
            have hq : FileOk { p with calls := c } := hp.calls
            rcases phFppAllocateBlocks_spec env (n := n) hq hi (hused i hi) with
              ⟨hnone, -⟩ | ⟨q, start, hsome, htaken⟩
            · rw [hnone] at h
              exact (ih hq hused h).of_calls
            · rw [hsome] at h
              injection h with h
              injection h with h₁ h₂
              subst h₁ h₂
              exact ⟨hi, c, htaken⟩

theorem scanLists_spec {env : PoolEnv} {n fuel m k k' : Nat} {p p' : FilePool} {r : ScanResult}
    (hp : FileOk p) (hused : ∀ k, k < p.get .segmentCount → HeaderUsed p k)
    (h : scanLists env n fuel m p k = some (p', k', r)) :
    Scanned p p' n r ∧ (r ≠ .exhausted → k' < k + m) := by
  induction m generalizing p k with
  | zero =>
      injection h with h
      injection h with h₁ h₂
      injection h₂ with h₂ h₃
      subst h₁ h₂ h₃
      exact ⟨⟨p.calls, rfl⟩, fun h => absurd rfl h⟩
  | succ m ih =>
      unfold scanLists at h
      split at h
      · cases h
      · next hscan =>
          obtain ⟨c, rfl⟩ := scanList_spec hp hused hscan
          have hq : FileOk { p with calls := c } := hp.calls
          obtain ⟨hs, hk⟩ := ih hq hused h
          exact ⟨hs.of_calls, fun hr => by have := hk hr; omega⟩
      · next hscan =>
          injection h with h
          injection h with h₁ h₂
          injection h₂ with h₂ h₃
          subst h₁ h₂ h₃
          exact ⟨scanList_spec hp hused hscan, fun _ => by omega⟩

/-! ## Runs -/

def headerOf (b : FpPointer) : Nat := b.offset - fpBlockBody

def spanOf (p : FilePool) (b : FpPointer) : Nat := p.get (.blockSpan b.segment (headerOf b))

/-- The bytes of a block, its header included. -/
def bytesOf (p : FilePool) (b : FpPointer) : Set Nat :=
  Set.Ico (segmentOffset p.segmentShift b.segment + headerOf b)
    (segmentOffset p.segmentShift b.segment + headerOf b +
      spanOf p b * blockSize p.segmentShift)

/-- A pool that was created and used, with the blocks that are live in it. A user of
the pool writes to the bodies of live blocks and frees no other ones. -/
inductive PoolRun (env : PoolEnv) (segmentShift : Nat) : FilePool → List FpPointer → Prop where
  | create {p} : phCreateFilePool env segmentShift = some p → PoolRun env segmentShift p []
  | allocate {p live fuel size p' r} : PoolRun env segmentShift p live →
      phAllocateFilePool env fuel p size = some (p', r) →
      PoolRun env segmentShift p' (r.toList ++ live)
  | store {p live b a value} : PoolRun env segmentShift p live → b ∈ live → a ∈ bytesOf p b →
      segmentOffset p.segmentShift b.segment + b.offset ≤ a →
      PoolRun env segmentShift { p with memory := Function.update p.memory a value } live
  | free {p live b} : PoolRun env segmentShift p live → b ∈ live →
      PoolRun env segmentShift (phFreeFilePool env p b) (live.erase b)
  | freeByRva {p live b p' freed} : PoolRun env segmentShift p live → b ∈ live →
      phFreeFilePoolByRva env p (phFppEncodeRva p.segmentShift b) = (p', freed) →
      PoolRun env segmentShift p' (if freed then live.erase b else live)

/-! ## The invariant -/

def startOf (p : FilePool) (b : FpPointer) : Nat := headerOf b / blockSize p.segmentShift

structure LiveOk (p : FilePool) (b : FpPointer) : Prop where
  segment : b.segment < p.get .segmentCount
  aligned : b.offset = startOf p b * blockSize p.segmentShift + fpBlockBody
  place : startOf p b = 0 ∧ spanOf p b = 0 ∨
    firstFree p.segmentShift b.segment ≤ startOf p b ∧ 0 < spanOf p b
  inside : startOf p b + spanOf p b ≤ fpBlockCount
  used : ∀ j, startOf p b ≤ j → j < startOf p b + spanOf p b → p.bit b.segment j = true

/-- Two blocks have no block of the pool in common. -/
def Apart (p : FilePool) (b c : FpPointer) : Prop :=
  b.segment = c.segment →
    startOf p b + spanOf p b ≤ startOf p c ∨ startOf p c + spanOf p c ≤ startOf p b

structure PoolSafe (p : FilePool) (live : List FpPointer) : Prop where
  fileOk : FileOk p
  headers : ∀ i, i < p.get .segmentCount → HeaderUsed p i
  blocks : ∀ b ∈ live, LiveOk p b
  apart : live.Pairwise (Apart p)

theorem LiveOk.header_eq {p : FilePool} {b : FpPointer} (h : LiveOk p b) :
    headerOf b = startOf p b * blockSize p.segmentShift := by
  have := h.aligned
  unfold headerOf at *
  omega

theorem LiveOk.blockOffset {p : FilePool} {b : FpPointer} (h : LiveOk p b) :
    BlockOffset p.segmentShift b.segment (headerOf b) := by
  refine ⟨startOf p b, h.header_eq, ?_, ?_⟩
  · have := h.inside
    rcases h.place with ⟨h₁, -⟩ | ⟨-, h₂⟩
    · rw [h₁]
      decide
    · omega
  · exact h.place.imp And.left fun h => Or.inr h.1

theorem LiveOk.spanOk {p : FilePool} {b : FpPointer} (hp : FileOk p) (h : LiveOk p b) :
    (FpField.blockSpan b.segment (headerOf b)).Ok p.segmentShift :=
  ⟨hp.inFile h.segment, h.blockOffset⟩

theorem LiveOk.congr {p p' : FilePool} {b : FpPointer} (h : LiveOk p b)
    (hshift : p'.segmentShift = p.segmentShift)
    (hcount : p.get .segmentCount ≤ p'.get .segmentCount) (hspan : spanOf p' b = spanOf p b)
    (hbit : ∀ j, startOf p b ≤ j → j < startOf p b + spanOf p b → p'.bit b.segment j = true) :
    LiveOk p' b := by
  have hstart : startOf p' b = startOf p b := by
    unfold startOf
    rw [hshift]
  refine ⟨Nat.lt_of_lt_of_le h.segment hcount, ?_, ?_, ?_, ?_⟩
  · rw [hstart, hshift]
    exact h.aligned
  · rw [hstart, hspan, hshift]
    exact h.place
  · rw [hstart, hspan]
    exact h.inside
  · rw [hstart, hspan]
    exact hbit

theorem Apart.congr {p p' : FilePool} {b c : FpPointer} (h : Apart p b c)
    (hshift : p'.segmentShift = p.segmentShift) (hb : spanOf p' b = spanOf p b)
    (hc : spanOf p' c = spanOf p c) : Apart p' b c := by
  unfold Apart startOf at *
  rw [hshift, hb, hc]
  exact h

theorem Apart.symm {p : FilePool} {b c : FpPointer} (h : Apart p b c) : Apart p c b :=
  fun heq => (h heq.symm).symm

instance {p : FilePool} : Std.Symm (Apart p) := ⟨fun _ _ h => h.symm⟩

theorem PoolSafe.apart_congr {p p' : FilePool} {live : List FpPointer} (h : PoolSafe p live)
    (hshift : p'.segmentShift = p.segmentShift)
    (hspan : ∀ b ∈ live, spanOf p' b = spanOf p b) : live.Pairwise (Apart p') :=
  h.apart.imp_of_mem fun hb hc hbc => hbc.congr hshift (hspan _ hb) (hspan _ hc)

theorem PoolSafe.keep {S : FpField → Prop} {B : Nat → Prop} {p p' : FilePool}
    {live : List FpPointer} (h : PoolSafe p live) (hk : Keeps S B p p')
    (hS : ∀ b ∈ live, ¬ S (.blockSpan b.segment (headerOf b))) (hB : ∀ i, ¬ B i) :
    PoolSafe p' live := by
  have hspan : ∀ b ∈ live, spanOf p' b = spanOf p b := fun b hb =>
    hk.get ((h.blocks b hb).spanOk h.fileOk) (hS b hb)
  refine ⟨hk.fileOk h.fileOk, ?_, ?_, h.apart_congr hk.shift hspan⟩
  · intro i hi j hj
    rw [hk.count] at hi
    rw [hk.shift] at hj
    have hlt := (header_room (i := i) h.fileOk.roomy.sizes).2
    rw [hk.bit (h.fileOk.inFile hi) (hB i) (Nat.lt_of_lt_of_le hj (Nat.le_trans hlt (by decide)))]
    exact h.headers i hi j hj
  · intro b hb
    have hl := h.blocks b hb
    refine hl.congr hk.shift hk.count.ge (hspan b hb) fun j h₁ h₂ => ?_
    rw [hk.bit (h.fileOk.inFile hl.segment) (hB _) (Nat.lt_of_lt_of_le h₂ hl.inside)]
    exact hl.used j h₁ h₂

theorem PoolSafe.keepBlocks {p p' : FilePool} {live : List FpPointer} (h : PoolSafe p live)
    (hk : KeepsBlocks p p') : PoolSafe p' live :=
  h.keep hk (fun _ _ => id) fun _ => id

theorem PoolSafe.taken {p p' : FilePool} {live : List FpPointer} {i start n : Nat}
    (h : PoolSafe p live) (hi : i < p.get .segmentCount) (ht : Taken p p' i start n) :
    PoolSafe p' (⟨i, start * blockSize p.segmentShift + fpBlockBody⟩ :: live) := by
  have hk := ht.keeps
  have hsizes := h.fileOk.roomy.sizes
  have hfirst := firstFree_pos (i := i) hsizes
  have hbs : 0 < blockSize p.segmentShift := by
    have := hsizes.block
    omega
  -- Bits are only set.
  have hset : ∀ {k j}, k < p.get .segmentCount → j < fpBlockCount → p.bit k j = true →
      p'.bit k j = true := by
    intro k j hk' hj hbit
    by_cases hki : k = i
    · subst hki
      rw [ht.bit hj]
      unfold writeRange
      split
      · rfl
      · exact hbit
    · rw [hk.bit (h.fileOk.inFile hk') hki hj]
      exact hbit
  -- A live block at the same place is one of no blocks, and so is the new one.
  have hsame : ∀ b ∈ live, b.segment = i → startOf p b = start → spanOf p b = 0 ∧ n = 0 := by
    intro b hb hseg hstart
    have hl := h.blocks b hb
    rcases hl.place with ⟨h₁, h₂⟩ | ⟨h₁, h₂⟩
    · rcases ht.place with ⟨h₃, -⟩ | ⟨-, h₄⟩
      · exact ⟨h₂, h₃⟩
      · omega
    · rcases ht.place with ⟨-, h₄⟩ | ⟨hn, -⟩
      · rw [hseg] at h₁
        omega
      · have hu := hl.used start (by omega) (by omega)
        rw [hseg, ht.run.2 start (by omega) (by omega)] at hu
        cases hu
  have hspan : ∀ b ∈ live, spanOf p' b = spanOf p b := by
    intro b hb
    have hl := h.blocks b hb
    by_cases heq : b.segment = i ∧ startOf p b = start
    · obtain ⟨hseg, hstart⟩ := heq
      obtain ⟨h₁, h₂⟩ := hsame b hb hseg hstart
      have hs := ht.span
      rw [← hseg, ← hstart, ← hl.header_eq] at hs
      rw [h₁]
      exact hs.trans h₂
    · refine hk.get (hl.spanOk h.fileOk) ?_
      rintro (hf | hf | hf)
      · cases hf
      · cases hf
      · injection hf with h₁ h₂
        rw [hl.header_eq] at h₂
        exact heq ⟨h₁, Nat.eq_of_mul_eq_mul_right hbs h₂⟩
  have hstart : startOf p' ⟨i, start * blockSize p.segmentShift + fpBlockBody⟩ = start := by
    unfold startOf headerOf
    rw [hk.shift, Nat.add_sub_cancel, Nat.mul_div_cancel _ hbs]
  have hnew : spanOf p' ⟨i, start * blockSize p.segmentShift + fpBlockBody⟩ = n := by
    unfold spanOf headerOf
    rw [Nat.add_sub_cancel]
    exact ht.span
  refine ⟨hk.fileOk h.fileOk, ?_, ?_, List.pairwise_cons.mpr ⟨?_, h.apart_congr hk.shift hspan⟩⟩
  · intro k hk' j hj
    rw [hk.count] at hk'
    rw [hk.shift] at hj
    have hlt := (header_room (i := k) hsizes).2
    exact hset hk' (Nat.lt_of_lt_of_le hj (Nat.le_trans hlt (by decide))) (h.headers k hk' j hj)
  · intro b hb
    rcases List.mem_cons.mp hb with rfl | hb
    · refine ⟨hk.count.symm ▸ hi, ?_, ?_, ?_, ?_⟩
      · rw [hstart, hk.shift]
      · rw [hstart, hnew, hk.shift]
        exact ht.place.imp And.symm And.symm
      · rw [hstart, hnew]
        exact ht.run.1
      · intro j h₁ h₂
        rw [hstart] at h₁
        rw [hstart, hnew] at h₂
        rw [ht.bit (Nat.lt_of_lt_of_le h₂ ht.run.1)]
        exact writeRange_inside ⟨h₁, h₂⟩
    · have hl := h.blocks b hb
      exact hl.congr hk.shift hk.count.ge (hspan b hb) fun j h₁ h₂ =>
        hset hl.segment (Nat.lt_of_lt_of_le h₂ hl.inside) (hl.used j h₁ h₂)
  · intro b hb hseg
    have hl := h.blocks b hb
    have hstart' : startOf p' b = startOf p b := by
      unfold startOf
      rw [hk.shift]
    rw [hstart, hnew, hstart', hspan b hb]
    by_contra hmeet
    rw [not_or, Nat.not_le, Nat.not_le] at hmeet
    have hplace := hl.place
    have hplace' := ht.place
    -- The two ranges meet at the later of the two starts, which is used and clear.
    have hu := hl.used (max (startOf p b) start) (by omega) (by omega)
    rw [← hseg, ht.run.2 _ (by omega) (by omega)] at hu
    cases hu

theorem PoolSafe.givenBack {p p' : FilePool} {live : List FpPointer} {b : FpPointer}
    (h : PoolSafe p live) (hb : b ∈ live)
    (hg : GivenBack p p' b.segment (startOf p b) (spanOf p b)) :
    PoolSafe p' (live.erase b) := by
  have hk := hg.keeps
  have hl := h.blocks b hb
  have hspan : ∀ c ∈ live, spanOf p' c = spanOf p c := fun c hc =>
    hk.get ((h.blocks c hc).spanOk h.fileOk) nofun
  have hperm : (b :: live.erase b).Pairwise (Apart p) :=
    ((List.perm_cons_erase hb).pairwise_iff fun h => h.symm).mp h.apart
  have hapart := (List.pairwise_cons.mp hperm).1
  refine ⟨hk.fileOk h.fileOk, ?_, ?_, ?_⟩
  · intro i hi j hj
    rw [hk.count] at hi
    rw [hk.shift] at hj
    have hlt := (header_room (i := i) h.fileOk.roomy.sizes).2
    have hj' : j < fpBlockCount := Nat.lt_of_lt_of_le hj (Nat.le_trans hlt (by decide))
    by_cases hib : i = b.segment
    · subst hib
      rw [hg.bit hj', writeRange_outside]
      · exact h.headers _ hi j hj
      · have := hl.place
        omega
    · rw [hk.bit (h.fileOk.inFile hi) hib hj']
      exact h.headers i hi j hj
  · intro c hc
    have hmem := List.mem_of_mem_erase hc
    have hlc := h.blocks c hmem
    refine hlc.congr hk.shift hk.count.ge (hspan c hmem) fun j h₁ h₂ => ?_
    have hj := Nat.lt_of_lt_of_le h₂ hlc.inside
    by_cases hcb : c.segment = b.segment
    · have hcb' := hapart c hc hcb.symm
      rw [hcb, hg.bit hj, writeRange_outside (by omega), ← hcb]
      exact hlc.used j h₁ h₂
    · rw [hk.bit (h.fileOk.inFile hlc.segment) hcb hj]
      exact hlc.used j h₁ h₂
  · exact ((List.pairwise_cons.mp hperm).2).imp_of_mem fun hc hd hcd =>
      hcd.congr hk.shift (hspan _ (List.mem_of_mem_erase hc)) (hspan _ (List.mem_of_mem_erase hd))

theorem PoolSafe.segmentAdded {p q q' : FilePool} {live : List FpPointer}
    (h : PoolSafe p live) (he : Extended p q)
    (hi : Initialized q q' (p.get .segmentCount) (segmentHeaderBlockSpan q.segmentShift)) :
    PoolSafe q' live := by
  have hk := hi.keeps
  have hcount : q'.get .segmentCount = p.get .segmentCount + 1 := hk.count.trans he.count
  have hshift : q'.segmentShift = p.segmentShift := hk.shift.trans he.shift
  have hsizes := h.fileOk.roomy.sizes
  have hpos := h.fileOk.pos
  have hbit : ∀ {i j}, i < p.get .segmentCount → j < fpBlockCount →
      q'.bit i j = p.bit i j := by
    intro i j hi' hj
    have hin := h.fileOk.inFile hi'
    exact (hk.bit (he.shift.symm ▸ hin) (Nat.ne_of_lt hi') hj).trans (he.bit hin hj)
  have hspan : ∀ b ∈ live, spanOf q' b = spanOf p b := by
    intro b hb
    have hl := h.blocks b hb
    have hok := hl.spanOk h.fileOk
    refine (hk.get (he.shift.symm ▸ hok) ?_).trans (he.get hok nofun)
    rintro (hf | hf | hf | hf)
    · injection hf with h₁ h₂
      exact Nat.ne_of_lt hl.segment h₁
    · cases hf
    · cases hf
    · cases hf
  refine ⟨hk.fileOk he.fileOk, ?_, ?_, h.apart_congr hshift hspan⟩
  · intro i hi' j hj
    rw [hshift] at hj
    have hlt := (header_room (i := i) hsizes).2
    have hj' : j < fpBlockCount := Nat.lt_of_lt_of_le hj (Nat.le_trans hlt (by decide))
    by_cases hnew : i = p.get .segmentCount
    · rw [hnew, hi.bit hj']
      refine writeRange_inside ⟨Nat.zero_le j, ?_⟩
      rw [hnew, firstFree, headerBlock, if_neg (by omega)] at hj
      rw [he.shift]
      exact hj
    · rw [hbit (by omega) hj']
      exact h.headers i (by omega) j hj
  · intro b hb
    have hl := h.blocks b hb
    refine hl.congr hshift (by omega) (hspan b hb) fun j h₁ h₂ => ?_
    rw [hbit hl.segment (Nat.lt_of_lt_of_le h₂ hl.inside)]
    exact hl.used j h₁ h₂

/-- The body of a live block, as offsets in its segment: past the headers and before
the end of the segment. -/
theorem LiveOk.body {p : FilePool} {b : FpPointer} {a : Nat} (hp : FileOk p) (hl : LiveOk p b)
    (ha : a ∈ bytesOf p b) (hbody : segmentOffset p.segmentShift b.segment + b.offset ≤ a) :
    ∃ x, a = b.segment * segmentSize p.segmentShift + x ∧
      startOf p b * blockSize p.segmentShift + fpBlockBody ≤ x ∧
      x < (startOf p b + spanOf p b) * blockSize p.segmentShift ∧
      headerBlock p.segmentShift b.segment * blockSize p.segmentShift + 336 ≤ x ∧
      x < segmentSize p.segmentShift := by
  have hsizes := hp.roomy.sizes
  obtain ⟨-, hhi⟩ := ha
  rw [segmentOffset_eq hsizes (hp.inFile hl.segment)] at hhi hbody
  rw [hl.aligned] at hbody
  rw [hl.header_eq, Nat.add_assoc, ← Nat.add_mul] at hhi
  have hfirst : firstFree p.segmentShift b.segment * blockSize p.segmentShift ≤
      startOf p b * blockSize p.segmentShift := by
    refine Nat.mul_le_mul_right _ ?_
    rcases hl.place with ⟨h₁, h₂⟩ | ⟨h₁, -⟩
    · rw [h₁, h₂] at hhi
      omega
    · exact h₁
  have hend : (startOf p b + spanOf p b) * blockSize p.segmentShift ≤
      segmentSize p.segmentShift := by
    rw [hsizes.segment]
    exact Nat.mul_le_mul_right _ hl.inside
  have hroom := (header_room (i := b.segment) hsizes).1
  exact ⟨a - b.segment * segmentSize p.segmentShift, by omega, by omega, by omega, by omega,
    by omega⟩

theorem Keeps.store {p : FilePool} {i x : Nat} (value : Nat) (hp : FileOk p)
    (hi : i < p.get .segmentCount)
    (hlo : headerBlock p.segmentShift i * blockSize p.segmentShift + 336 ≤ x)
    (hhi : x < segmentSize p.segmentShift) :
    Keeps (fun f => f.addr p.segmentShift = i * segmentSize p.segmentShift + x)
      (fun _ => False) p
      { p with
        memory := Function.update p.memory (i * segmentSize p.segmentShift + x) value } := by
  have hsizes := hp.roomy.sizes
  have hblock := hsizes.block
  have hsegment := hsizes.segment
  refine ⟨rfl, rfl, ?_, ?_, ?_, ?_⟩
  · refine Function.update_of_ne ?_ ..
    show 16 + 8 ≠ _
    omega
  · intro f _ hne
    exact Function.update_of_ne hne ..
  · intro k j hk _ hj
    refine bitAt_congr (show j < 32 * fpBitmapSize from hj) fun w hw => ?_
    refine Function.update_of_ne ?_ ..
    have hH : headerBlock p.segmentShift k * blockSize p.segmentShift ≤
        blockSize p.segmentShift := by
      simpa using Nat.mul_le_mul_right (blockSize p.segmentShift)
        (headerBlock_le (i := k) hsizes)
    show phFppGetHeaderSegment p.segmentShift k + 4 * w ≠ _
    rw [header_eq hp.roomy hk]
    unfold fpBitmapSize at hw
    rcases Nat.lt_trichotomy k i with h | rfl | h
    · have := segments_apart (y := x) h
        (show headerBlock p.segmentShift k * blockSize p.segmentShift + 16 + 4 * 64 ≤
          segmentSize p.segmentShift by omega)
      omega
    · omega
    · have := segments_apart
        (y := headerBlock p.segmentShift k * blockSize p.segmentShift + 16) h
        (show x + 1 ≤ segmentSize p.segmentShift by omega)
      omega
  · intro a ha
    refine Function.update_of_ne ?_ ..
    have := segments_apart (y := 0) hi (show x + 1 ≤ segmentSize p.segmentShift by omega)
    omega

theorem PoolSafe.store {p : FilePool} {live : List FpPointer} {b : FpPointer} {a : Nat} (value : Nat)
    (h : PoolSafe p live) (hb : b ∈ live) (ha : a ∈ bytesOf p b)
    (hbody : segmentOffset p.segmentShift b.segment + b.offset ≤ a) :
    PoolSafe { p with memory := Function.update p.memory a value } live := by
  have hsizes := h.fileOk.roomy.sizes
  have hl := h.blocks b hb
  obtain ⟨x, rfl, hx, hx', hlo, hhi⟩ := hl.body h.fileOk ha hbody
  refine h.keep (Keeps.store _ h.fileOk hl.segment hlo hhi) (fun c hc heq => ?_) fun _ => id
  -- The write would be to the span of a live block.
  have hlc := h.blocks c hc
  have hok := hlc.spanOk h.fileOk
  have hlt := FpField.offset_lt hsizes hok
  rw [FpField.addr_eq h.fileOk.roomy hok] at heq
  obtain ⟨hseg, hoff⟩ := segment_offset_inj (by omega) hhi heq
  have hoff' : startOf p c * blockSize p.segmentShift + 4 = x := by
    rw [← hlc.header_eq]
    exact hoff
  unfold fpBlockBody at hx
  by_cases hbc : b = c
  · subst hbc
    omega
  · have hapart := h.apart.forall hb hc hbc
    rcases hapart hseg.symm with h₁ | h₁
    · have := Nat.mul_le_mul_right (blockSize p.segmentShift) h₁
      omega
    · have : startOf p c * blockSize p.segmentShift ≤ startOf p b * blockSize p.segmentShift :=
        Nat.mul_le_mul_right _ (by omega)
      omega

/-! ## Runs keep the invariant -/

theorem PoolSafe.created {s : Nat} {p : FilePool} (h : HeaderSet s p) :
    PoolSafe (initializeFirstSegment p) [] := by
  have hp := h.fileOk
  have hsizes := hp.roomy.sizes
  have hzero : BlockOffset p.segmentShift 0 0 := ⟨0, by simp, by decide, Or.inl rfl⟩
  -- The block of the file header, the segment header, and the free list.
  let q₁ := p.set (.blockSpan 0 0) (fileHeaderBlockSpan p.segmentShift)
  let q₂ := phFppInitializeSegment q₁ 0 (fileHeaderBlockSpan p.segmentShift)
  have h₁ : Keeps (fun _ => True) (fun _ => False) p q₁ :=
    Keeps.set hp ⟨hp.inFile hp.pos, hzero⟩ hp.pos nofun trivial
  have h₂ := phFppInitializeSegment_spec (i := 0) (fileHeaderBlockSpan p.segmentShift)
    (h₁.fileOk hp) (h₁.fileOk hp).pos
  have hq₂ : FileOk q₂ := h₂.keeps.fileOk (h₁.fileOk hp)
  have hsafe : PoolSafe q₂ [] := by
    refine ⟨hq₂, ?_, fun b hb => absurd hb List.not_mem_nil, List.Pairwise.nil⟩
    intro i hi j hj
    have hlt := (header_room (i := i) hq₂.roomy.sizes).2
    have hcount : q₂.get .segmentCount = 1 := h₂.keeps.count.trans (h₁.count.trans h.count)
    obtain rfl : i = 0 := by omega
    rw [h₂.bit (Nat.lt_of_lt_of_le hj (Nat.le_trans hlt (by decide)))]
    refine writeRange_inside ⟨Nat.zero_le j, ?_⟩
    rw [firstFree, headerBlock, if_pos rfl, Nat.add_comm] at hj
    rw [Nat.zero_add]
    exact hj
  exact hsafe.keepBlocks (KeepsBlocks.freeList hq₂ (by decide))

section Steps

variable {env : PoolEnv} {p p' : FilePool} {live : List FpPointer}

theorem PoolSafe.calls {c : Nat} (h : PoolSafe p live) : PoolSafe { p with calls := c } live :=
  h.keepBlocks Keeps.calls

theorem PoolSafe.allocated {q : FilePool} {k i start n : Nat} (h : PoolSafe p live)
    (hk : k < fpFreeListCount) (hi : i < p.get .segmentCount) (ht : Taken p q i start n) :
    PoolSafe (blockAllocated env q k i start).1
      ((blockAllocated env q k i start).2.toList ++ live) := by
  have hq := h.taken hi ht
  have hkeeps : KeepsBlocks q (blockAllocated env q k i start).1 :=
    moveFreeList_keeps env hq.fileOk hk phFppComputeFreeListIndex_lt
      (ht.keeps.count.symm ▸ hi)
  have hpointer : (blockAllocated env q k i start).2 =
      some ⟨i, start * blockSize p.segmentShift + fpBlockBody⟩ := by
    unfold blockAllocated
    rw [ht.keeps.shift]
  rw [hpointer]
  exact hq.keepBlocks hkeeps

theorem PoolSafe.newSegment {fuel n m k k' i : Nat} {q q' : FilePool} (h : PoolSafe p live)
    (hscan : scanLists env n fuel m p k = some (q, k', .exhausted))
    (hseg : phFppAllocateSegment env q = some (q', some i)) :
    PoolSafe q' live ∧ i < q'.get .segmentCount := by
  obtain ⟨⟨c, rfl⟩, -⟩ := scanLists_spec h.fileOk h.headers hscan
  have hc := h.calls (c := c)
  rcases phFppAllocateSegment_cases env hc.fileOk with
    hcase | ⟨d, hcase⟩ | ⟨e, he, hcase⟩
  · rw [hcase] at hseg
    cases hseg
  · rw [hcase] at hseg
    cases hseg
  · rw [hcase] at hseg
    injection hseg with hseg
    injection hseg with h₁ h₂
    injection h₂ with h₂
    subst h₁ h₂
    have hlt : p.get .segmentCount < e.get .segmentCount := by
      rw [he.count]
      exact Nat.lt_succ_self _
    have hi := phFppInitializeSegment_spec 0 he.fileOk hlt
    have hsafe := hc.segmentAdded he hi
    have hk := phFppInsertFreeList_keeps env hsafe.fileOk
      (show 0 < fpFreeListCount by decide) (hi.keeps.count.symm ▸ hlt)
    exact ⟨hsafe.keepBlocks hk, Nat.lt_of_lt_of_eq hlt (hk.count.trans hi.keeps.count).symm⟩

theorem PoolSafe.allocate {fuel n : Nat} {r : Option FpPointer} (h : PoolSafe p live)
    (ha : Allocation env fuel p n p' r) : PoolSafe p' (r.toList ++ live) := by
  have hlimit := phFppComputeFreeListIndex_lt (s := p.segmentShift) (n := n)
  cases ha with
  | tooLarge hlarge => exact h
  | notMapped hscan =>
      obtain ⟨⟨c, rfl⟩, -⟩ := scanLists_spec h.fileOk h.headers hscan
      exact h.calls
  | found hscan =>
      obtain ⟨⟨hi, c, ht⟩, hk⟩ := scanLists_spec h.fileOk h.headers hscan
      have hk' := hk nofun
      exact (h.calls (c := c)).allocated (by omega) hi ht
  | notExtended hscan hseg =>
      obtain ⟨⟨c, rfl⟩, -⟩ := scanLists_spec h.fileOk h.headers hscan
      rcases phFppAllocateSegment_cases env (h.fileOk.calls (c := c)) with
        hcase | ⟨d, hcase⟩ | ⟨e, -, hcase⟩
      · rw [hcase] at hseg
        cases hseg
      · rw [hcase] at hseg
        injection hseg with hseg
        injection hseg with hseg
        subst hseg
        exact h.calls
      · rw [hcase] at hseg
        cases hseg
  | noRoom hscan hseg hblocks =>
      obtain ⟨hq, hi⟩ := h.newSegment hscan hseg
      rcases phFppAllocateBlocks_spec env (n := n) hq.fileOk hi (hq.headers _ hi) with
        ⟨hnone, -⟩ | ⟨q, start, hsome, -⟩
      · rw [hnone] at hblocks
        injection hblocks with hblocks
        subst hblocks
        exact hq
      · rw [hsome] at hblocks
        cases hblocks
  | fresh hscan hseg hblocks =>
      obtain ⟨hq, hi⟩ := h.newSegment hscan hseg
      rcases phFppAllocateBlocks_spec env (n := n) hq.fileOk hi (hq.headers _ hi) with
        ⟨hnone, -⟩ | ⟨q, start, hsome, ht⟩
      · rw [hnone] at hblocks
        cases hblocks
      · rw [hsome] at hblocks
        injection hblocks with h₁ h₂
        injection h₂ with h₂
        subst h₁ h₂
        exact hq.allocated (by decide) hi ht

theorem PoolSafe.freed {b : FpPointer} (h : PoolSafe p live) (hb : b ∈ live) :
    PoolSafe (phpFreeFilePool env p b) (live.erase b) := by
  have hl := h.blocks b hb
  have hg : GivenBack p (phFppFreeBlocks p b.segment (headerOf b)) b.segment (startOf p b)
      (spanOf p b) := phFppFreeBlocks_spec h.fileOk hl.segment
  have hq := h.givenBack hb hg
  exact hq.keepBlocks (moveFreeList_keeps env hq.fileOk phFppComputeFreeListIndex_lt
    phFppComputeFreeListIndex_lt (hg.keeps.count.symm ▸ hl.segment))

theorem phFppDecodeRva_encode {b : FpPointer} (hseg : b.segment < p.get .segmentCount)
    (hoff : b.offset < segmentSize p.segmentShift)
    (hfits : p.get .segmentCount * segmentSize p.segmentShift ≤ ulongRange) :
    phFppDecodeRva p (phFppEncodeRva p.segmentShift b) = some b := by
  have hpos : 0 < segmentSize p.segmentShift := by omega
  have hin : (b.segment + 1) * segmentSize p.segmentShift ≤ ulongRange :=
    Nat.le_trans (Nat.mul_le_mul_right _ hseg) hfits
  rw [Nat.succ_mul] at hin
  have hrva : phFppEncodeRva p.segmentShift b =
      segmentSize p.segmentShift * b.segment + b.offset := by
    have hstart : segmentOffset p.segmentShift b.segment =
        b.segment * segmentSize p.segmentShift := Nat.mod_eq_of_lt (by omega)
    rw [phFppEncodeRva, hstart, Nat.mod_eq_of_lt (by omega), Nat.mul_comm]
  have hdiv : phFppEncodeRva p.segmentShift b / segmentSize p.segmentShift = b.segment := by
    rw [hrva, Nat.mul_add_div hpos, Nat.div_eq_of_lt hoff, Nat.add_zero]
  have hmod : phFppEncodeRva p.segmentShift b % segmentSize p.segmentShift = b.offset := by
    rw [hrva, Nat.mul_add_mod, Nat.mod_eq_of_lt hoff]
  unfold phFppDecodeRva
  simp only [hdiv, hmod]
  rw [if_neg (Nat.not_le.mpr hseg)]

theorem LiveOk.decode {b : FpPointer} (hp : FileOk p) (hl : LiveOk p b) :
    phFppDecodeRva p (phFppEncodeRva p.segmentShift b) = some b := by
  have hblock := hp.roomy.sizes.block
  have hlt := (hl.blockOffset.cases hp.roomy.sizes).2.1
  have hoff : b.offset = headerOf b + 16 := by
    have := hl.aligned
    unfold headerOf fpBlockBody at *
    omega
  exact phFppDecodeRva_encode hl.segment (by omega)
    (Nat.le_trans hp.fits (Nat.le_of_lt hp.bound))

theorem PoolSafe.freedByRva {b : FpPointer} {freed : Bool} (h : PoolSafe p live)
    (hb : b ∈ live)
    (hf : phFreeFilePoolByRva env p (phFppEncodeRva p.segmentShift b) = (p', freed)) :
    PoolSafe p' (if freed then live.erase b else live) := by
  have hl := h.blocks b hb
  obtain ⟨⟨c, hcalls⟩, -⟩ :=
    phFppReferenceSegment_spec env (i := b.segment) h.fileOk.pos
  unfold phFreeFilePoolByRva at hf
  rw [hl.decode h.fileOk] at hf
  simp only [hcalls] at hf
  split at hf
  · injection hf with h₁ h₂
    subst h₁ h₂
    exact h.calls
  · injection hf with h₁ h₂
    subst h₁ h₂
    exact h.calls.freed hb

end Steps

theorem PoolRun.safe {env : PoolEnv} {segmentShift : Nat} {p : FilePool}
    {live : List FpPointer} (hshift : 18 ≤ segmentShift) (h : PoolRun env segmentShift p live) :
    PoolSafe p live := by
  induction h with
  | create hcreate =>
      obtain ⟨q, hq, rfl⟩ := phCreateFilePool_cases hshift hcreate
      exact PoolSafe.created hq
  | allocate _ halloc ih => exact ih.allocate (phAllocateFilePool_cases halloc)
  | store _ hb ha hbody ih => exact ih.store _ hb ha hbody
  | free _ hb ih => exact ih.freed hb
  | freeByRva _ hb hf ih => exact ih.freedByRva hb hf

/-! ## The layout, in bytes -/

def fileHeaderBytes : Set Nat := Set.Ico fpBlockBody (fpBlockBody + sizeofFpFileHeader)

def segmentHeaderBytes (s i : Nat) : Set Nat :=
  Set.Ico (phFppGetHeaderSegment s i) (phFppGetHeaderSegment s i + sizeofFpSegmentHeader)

def segmentHeaderBlockBytes (s : Nat) : Set Nat :=
  Set.Ico (fileHeaderBlockSpan s * blockSize s)
    ((fileHeaderBlockSpan s + segmentHeaderBlockSpan s) * blockSize s)

/-- The fields of the headers of a file of `count` segments. -/
def FpField.InHeader (count : Nat) : FpField → Prop
  | .magic | .segmentShift | .segmentCount => True
  | .freeList k => k < fpFreeListCount
  | .freeBlocks i | .freeFlink i | .freeBlink i => i < count
  | .blockFlags _ _ | .blockSpan _ _ => False

/-- Live blocks are apart, inside their segments and away from all headers, and the
headers are away from each other. -/
structure LayoutSafe (p : FilePool) (live : List FpPointer) : Prop where
  apart : live.Pairwise fun b c => Disjoint (bytesOf p b) (bytesOf p c)
  inside : ∀ b ∈ live, b.segment < p.get .segmentCount ∧
    bytesOf p b ⊆ Set.Ico (segmentOffset p.segmentShift b.segment)
      (segmentOffset p.segmentShift b.segment + segmentSize p.segmentShift)
  segmentHeader : ∀ b ∈ live, ∀ i, i < p.get .segmentCount →
    Disjoint (bytesOf p b) (segmentHeaderBytes p.segmentShift i)
  fileHeader : ∀ b ∈ live, Disjoint (bytesOf p b) fileHeaderBytes
  headerBlock : Disjoint fileHeaderBytes (segmentHeaderBlockBytes p.segmentShift)
  headers : ∀ i, i < p.get .segmentCount →
    Disjoint fileHeaderBytes (segmentHeaderBytes p.segmentShift i) ∧
    ∀ k, k < i → Disjoint (segmentHeaderBytes p.segmentShift k)
      (segmentHeaderBytes p.segmentShift i)
  fields : ∀ {f g : FpField}, f.InHeader (p.get .segmentCount) →
    g.InHeader (p.get .segmentCount) → f.addr p.segmentShift = g.addr p.segmentShift → f = g

theorem FpField.InHeader.ok {p : FilePool} {f : FpField} (hp : FileOk p)
    (h : f.InHeader (p.get .segmentCount)) : f.Ok p.segmentShift := by
  cases f with
  | magic | segmentShift | segmentCount => trivial
  | freeList k => exact h
  | freeBlocks i | freeFlink i | freeBlink i => exact hp.inFile h
  | blockFlags i offset | blockSpan i offset => exact h.elim

theorem LiveOk.bytesOf_eq {p : FilePool} {b : FpPointer} (hp : FileOk p) (h : LiveOk p b) :
    bytesOf p b = Set.Ico
      (b.segment * segmentSize p.segmentShift + startOf p b * blockSize p.segmentShift)
      (b.segment * segmentSize p.segmentShift +
        (startOf p b + spanOf p b) * blockSize p.segmentShift) := by
  unfold bytesOf
  rw [segmentOffset_eq hp.roomy.sizes (hp.inFile h.segment), h.header_eq, Nat.add_mul,
    Nat.add_assoc]

theorem LiveOk.end_le {p : FilePool} {b : FpPointer} (hp : FileOk p) (h : LiveOk p b) :
    (startOf p b + spanOf p b) * blockSize p.segmentShift ≤ segmentSize p.segmentShift := by
  rw [hp.roomy.sizes.segment]
  exact Nat.mul_le_mul_right _ h.inside

theorem LiveOk.start_ge {p : FilePool} {b : FpPointer} (hp : FileOk p) (h : LiveOk p b) :
    startOf p b = 0 ∧ spanOf p b = 0 ∨
      headerBlock p.segmentShift b.segment * blockSize p.segmentShift + 336 ≤
        startOf p b * blockSize p.segmentShift := by
  refine h.place.imp id fun hplace => ?_
  exact Nat.le_trans (header_room hp.roomy.sizes).1 (Nat.mul_le_mul_right _ hplace.1)

theorem segmentHeaderBytes_eq {s i : Nat} (hs : Roomy s) (hi : InFile s i) :
    segmentHeaderBytes s i = Set.Ico (i * segmentSize s + (headerBlock s i * blockSize s + 16))
      (i * segmentSize s + (headerBlock s i * blockSize s + 336)) := by
  unfold segmentHeaderBytes sizeofFpSegmentHeader
  rw [header_eq hs hi, Nat.add_assoc _ (headerBlock s i * blockSize s + 16) 320,
    Nat.add_assoc _ 16 320]

theorem segmentHeader_le {s i : Nat} (hs : Sizes s) :
    headerBlock s i * blockSize s + 336 ≤ segmentSize s := by
  have hroom := header_room (i := i) hs
  have hle : firstFree s i * blockSize s ≤ 4 * blockSize s := Nat.mul_le_mul_right _ hroom.2
  have hseg := hs.segment
  omega

theorem PoolSafe.layoutSafe {p : FilePool} {live : List FpPointer} (h : PoolSafe p live) :
    LayoutSafe p live := by
  have hp := h.fileOk
  have hsizes := hp.roomy.sizes
  have hblock := hsizes.block
  have h0 : headerBlock p.segmentShift 0 * blockSize p.segmentShift =
      blockSize p.segmentShift := by
    rw [headerBlock, if_pos rfl, hsizes.fileSpan, Nat.one_mul]
  refine ⟨?_, ?_, ?_, ?_, ?_, ?_, ?_⟩
  · refine h.apart.imp_of_mem fun {b c} hb hc hbc => ?_
    have hlb := h.blocks b hb
    have hlc := h.blocks c hc
    have hb' := hlb.end_le hp
    have hc' := hlc.end_le hp
    rw [hlb.bytesOf_eq hp, hlc.bytesOf_eq hp, Set.Ico_disjoint_Ico]
    rcases Nat.lt_trichotomy b.segment c.segment with hlt | heq | hlt
    · have := segments_apart (y := startOf p c * blockSize p.segmentShift) hlt hb'
      omega
    · rw [heq]
      rcases hbc heq with hle | hle
      · have := Nat.mul_le_mul_right (blockSize p.segmentShift) hle
        omega
      · have := Nat.mul_le_mul_right (blockSize p.segmentShift) hle
        omega
    · have := segments_apart (y := startOf p b * blockSize p.segmentShift) hlt hc'
      omega
  · intro b hb
    have hl := h.blocks b hb
    have hend := hl.end_le hp
    refine ⟨hl.segment, ?_⟩
    rw [hl.bytesOf_eq hp, segmentOffset_eq hsizes (hp.inFile hl.segment)]
    exact Set.Ico_subset_Ico (by omega) (by omega)
  · intro b hb i hi
    have hl := h.blocks b hb
    have hend := hl.end_le hp
    have hstart := hl.start_ge hp
    have hle := segmentHeader_le (i := i) hsizes
    rw [hl.bytesOf_eq hp, segmentHeaderBytes_eq hp.roomy (hp.inFile hi), Set.Ico_disjoint_Ico]
    rcases Nat.lt_trichotomy b.segment i with hlt | heq | hlt
    · have := segments_apart
        (y := headerBlock p.segmentShift i * blockSize p.segmentShift + 16) hlt hend
      omega
    · rw [heq] at hstart ⊢
      rcases hstart with ⟨h₁, h₂⟩ | hstart
      · rw [h₁, h₂]
        omega
      · omega
    · have := segments_apart (y := startOf p b * blockSize p.segmentShift) hlt hle
      omega
  · intro b hb
    have hl := h.blocks b hb
    have hstart := hl.start_ge hp
    rw [hl.bytesOf_eq hp, fileHeaderBytes, Set.Ico_disjoint_Ico, fpBlockBody,
      sizeofFpFileHeader]
    rcases hstart with ⟨h₁, h₂⟩ | hstart
    · rw [h₁, h₂]
      omega
    · omega
  · rw [fileHeaderBytes, segmentHeaderBlockBytes, Set.Ico_disjoint_Ico, hsizes.fileSpan,
      Nat.one_mul, fpBlockBody, sizeofFpFileHeader]
    omega
  · intro i hi
    have hin := hp.inFile hi
    have hseg := hsizes.segment
    refine ⟨?_, ?_⟩
    · rw [segmentHeaderBytes_eq hp.roomy hin, fileHeaderBytes, Set.Ico_disjoint_Ico,
        fpBlockBody, sizeofFpFileHeader]
      rcases Nat.eq_zero_or_pos i with rfl | hpos
      · rw [h0]
        omega
      · have := segments_apart (x := segmentSize p.segmentShift)
          (y := headerBlock p.segmentShift i * blockSize p.segmentShift + 16) hpos (Nat.le_refl _)
        omega
    · intro k hk
      have hle := segmentHeader_le (i := k) hsizes
      rw [segmentHeaderBytes_eq hp.roomy (hin.mono (Nat.le_of_lt hk)),
        segmentHeaderBytes_eq hp.roomy hin, Set.Ico_disjoint_Ico]
      have := segments_apart
        (y := headerBlock p.segmentShift i * blockSize p.segmentShift + 16) hk hle
      omega
  · intro f g hf hg heq
    exact FpField.addr_inj hp.roomy (hf.ok hp) (hg.ok hp) heq

/-! ## Where every call succeeds -/

def firstFit : BitmapFinder where
  find bits n hint :=
    if n = 0 then some (if hint < fpBlockCount then hint / 8 * 8 else 0)
    else (List.range fpBlockCount).find? fun start => decide (ClearRun bits fpBlockCount start n)
  clear := by
    intro bits n hint start h
    split at h
    · next hn =>
        injection h with h
        subst hn h
        refine ⟨?_, fun j h₁ h₂ => absurd h₂ (Nat.not_lt.mpr h₁)⟩
        split <;> omega
    · have hfound := List.find?_some h
      simpa only [decide_eq_true_eq] using hfound
  complete := by
    intro bits n hint h start hrun
    split at h
    · cases h
    · next hn =>
        have hlt : start < fpBlockCount := by
          have := hrun.1
          omega
        have := List.find?_eq_none.mp h start (List.mem_range.mpr hlt)
        exact this (decide_eq_true hrun)
  zero := by
    intro bits hint hlt
    rw [if_pos rfl, if_pos hlt]

def calmEnv : PoolEnv := ⟨firstFit, fun _ => true, fun _ => true⟩

theorem calmEnv_creates (segmentShift : Nat) :
    ∃ p, phCreateFilePool calmEnv segmentShift = some p ∧
      p.segmentShift = phpValidateFilePoolParameters segmentShift := by
  let q := initializeHeader
    ⟨phpValidateFilePoolParameters segmentShift, fun _ => 0, pageSize, 1⟩
  let q' := (phFppExtendRange calmEnv q (segmentSize q.segmentShift)).1
  have href : (phFppReferenceSegment calmEnv q' 0).2 = true := by
    show decide (0 * segmentSize q.segmentShift % ulongRange + segmentSize q.segmentShift ≤
      max q.sectionSize (segmentSize q.segmentShift)) = true
    rw [Nat.zero_mul, Nat.zero_mod, Nat.zero_add]
    exact decide_eq_true (le_max_right _ _)
  refine ⟨initializeFirstSegment (phFppReferenceSegment calmEnv q' 0).1, ?_, rfl⟩
  show (if (phFppReferenceSegment calmEnv q' 0).2 = false then none else
    some (initializeFirstSegment (phFppReferenceSegment calmEnv q' 0).1)) = _
  rw [href]
  rfl

/-- With segments of less than 256 kB the file header is not over where the block
of the segment header starts. -/
theorem headers_meet {segmentShift : Nat} (h : segmentShift < 18) :
    ¬ Disjoint fileHeaderBytes
      (segmentHeaderBlockBytes (phpValidateFilePoolParameters segmentShift)) := by
  have hs : phpValidateFilePoolParameters segmentShift = 16 ∨
      phpValidateFilePoolParameters segmentShift = 17 := by
    unfold phpValidateFilePoolParameters
    split
    · exact Or.inl rfl
    · rw [if_neg (by omega)]
      omega
  rw [fileHeaderBytes, segmentHeaderBlockBytes, Set.Ico_disjoint_Ico]
  rcases hs with hs | hs
  · rw [hs]
    decide
  · rw [hs]
    decide

theorem filePool_layoutSafe_iff (segmentShift : Nat) :
    (∀ env p live, PoolRun env segmentShift p live → LayoutSafe p live) ↔
      18 ≤ segmentShift := by
  refine ⟨fun h => ?_, fun hshift env p live hrun => (hrun.safe hshift).layoutSafe⟩
  obtain ⟨p, hcreate, hp⟩ := calmEnv_creates segmentShift
  have hsafe := (h calmEnv p [] (.create hcreate)).headerBlock
  rw [hp] at hsafe
  exact Nat.not_lt.mp fun hlt => headers_meet hlt hsafe

/-- In a pool with segments of 64 kB the last free list is the span of the block of
the segment header: the list of full segments starts at a segment that is not there. -/
theorem filePool_layout_sixteen :
    ∃ p, PoolRun calmEnv 16 p [] ∧ ¬ LayoutSafe p [] ∧
      p.get .segmentCount = 1 ∧ p.get (.freeList 7) = 10 := by
  obtain ⟨p, hcreate, hp⟩ := calmEnv_creates 16
  refine ⟨p, .create hcreate, fun hsafe => ?_, ?_⟩
  · have hblock := hsafe.headerBlock
    rw [hp] at hblock
    exact headers_meet (by decide) hblock
  · have heq : (phCreateFilePool calmEnv 16).map
        (fun p => (p.get .segmentCount, p.get (.freeList 7))) = some (1, 10) := by
      decide +kernel
    rw [hcreate] at heq
    injection heq with heq
    injection heq with h₁ h₂
    exact ⟨h₁, h₂⟩

end SystemInformer.PhLib
