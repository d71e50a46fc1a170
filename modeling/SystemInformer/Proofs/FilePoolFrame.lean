import SystemInformer.Proofs.FilePoolLayout

/-!
# What the operations of a file pool leave alone

`Keeps S B` says of two states of a pool that the second has the same segments,
and differs from the first in fields of `S` and in bitmaps of segments of `B` only.
Every operation below the allocator is given such a frame: the free lists write
links, taking and giving back blocks write one bitmap, its count and a block
header. Nothing here asks whether a mapping succeeded.
-/

namespace SystemInformer.PhLib

open Bitmap

/-- A file of whole segments that lies below 4 GiB. -/
structure FileOk (p : FilePool) : Prop where
  roomy : Roomy p.segmentShift
  pos : 0 < p.get .segmentCount
  fits : p.get .segmentCount * segmentSize p.segmentShift ≤ p.sectionSize
  bound : p.sectionSize < ulongRange

theorem FileOk.inFile {p : FilePool} {i : Nat} (hp : FileOk p)
    (hi : i < p.get .segmentCount) : InFile p.segmentShift i := by
  have hle : (i + 1) * segmentSize p.segmentShift ≤
      p.get .segmentCount * segmentSize p.segmentShift := Nat.mul_le_mul_right _ hi
  have hfits := hp.fits
  have hbound := hp.bound
  unfold InFile
  omega

theorem FileOk.calls {p : FilePool} {c : Nat} (hp : FileOk p) :
    FileOk { p with calls := c } :=
  ⟨hp.roomy, hp.pos, hp.fits, hp.bound⟩

structure Keeps (S : FpField → Prop) (B : Nat → Prop) (p p' : FilePool) : Prop where
  shift : p'.segmentShift = p.segmentShift
  size : p'.sectionSize = p.sectionSize
  count : p'.get .segmentCount = p.get .segmentCount
  get : ∀ {f : FpField}, f.Ok p.segmentShift → ¬ S f → p'.get f = p.get f
  bit : ∀ {i j}, InFile p.segmentShift i → ¬ B i → j < fpBlockCount → p'.bit i j = p.bit i j
  beyond : ∀ {a}, p.get .segmentCount * segmentSize p.segmentShift ≤ a →
    p'.memory a = p.memory a

namespace Keeps

variable {S : FpField → Prop} {B : Nat → Prop} {p p' p'' : FilePool}

theorem calls {c : Nat} : Keeps S B p { p with calls := c } :=
  ⟨rfl, rfl, rfl, fun _ _ => rfl, fun _ _ _ => rfl, fun _ => rfl⟩

theorem refl : Keeps S B p p := calls

theorem trans (h : Keeps S B p p') (h' : Keeps S B p' p'') : Keeps S B p p'' := by
  refine ⟨h'.shift.trans h.shift, h'.size.trans h.size, h'.count.trans h.count, ?_, ?_, ?_⟩
  · intro f hf hS
    exact (h'.get (h.shift ▸ hf) hS).trans (h.get hf hS)
  · intro i j hi hB hj
    exact (h'.bit (h.shift ▸ hi) hB hj).trans (h.bit hi hB hj)
  · intro a ha
    refine (h'.beyond ?_).trans (h.beyond ha)
    rw [h.count, h.shift]
    exact ha

theorem fileOk (h : Keeps S B p p') (hp : FileOk p) : FileOk p' := by
  obtain ⟨hroomy, hpos, hfits, hbound⟩ := hp
  refine ⟨h.shift ▸ hroomy, h.count ▸ hpos, ?_, h.size ▸ hbound⟩
  rw [h.shift, h.count, h.size]
  exact hfits

theorem set {f : FpField} {value : Nat} (hp : FileOk p) (hf : f.Ok p.segmentShift)
    (hseg : f.segment < p.get .segmentCount) (hne : f ≠ .segmentCount) (hS : S f) :
    Keeps S B p (p.set f value) := by
  refine ⟨rfl, rfl, FilePool.get_set_ne hp.roomy hf trivial hne.symm, ?_, ?_, ?_⟩
  · intro g hg hSg
    exact FilePool.get_set_ne hp.roomy hf hg fun h => hSg (h ▸ hS)
  · intro i j hi _ hj
    exact FilePool.bit_set hp.roomy hf hi hj
  · intro a ha
    refine Function.update_of_ne ?_ ..
    have hoff := FpField.offset_lt hp.roomy.sizes hf
    have hle : (f.segment + 1) * segmentSize p.segmentShift ≤
        p.get .segmentCount * segmentSize p.segmentShift := Nat.mul_le_mul_right _ hseg
    rw [Nat.succ_mul] at hle
    rw [FpField.addr_eq hp.roomy hf]
    omega

theorem writeBits {i start n : Nat} {v : Bool} (hp : FileOk p)
    (hi : i < p.get .segmentCount) (hB : B i) : Keeps S B p (p.writeBits i start n v) := by
  have hin := hp.inFile hi
  refine ⟨rfl, rfl, FilePool.get_writeBits hp.roomy trivial hin, ?_, ?_, ?_⟩
  · intro f hf _
    exact FilePool.get_writeBits hp.roomy hf hin
  · intro k j hk hBk hj
    exact FilePool.bit_writeBits_ne hp.roomy hin hk (fun h => hBk (h ▸ hB)) hj
  · intro a ha
    have hblock := hp.roomy.sizes.block
    have hsegment := hp.roomy.sizes.segment
    have hH : headerBlock p.segmentShift i * blockSize p.segmentShift ≤
        blockSize p.segmentShift := by
      simpa using Nat.mul_le_mul_right (blockSize p.segmentShift)
        (headerBlock_le (i := i) hp.roomy.sizes)
    have hle : (i + 1) * segmentSize p.segmentShift ≤
        p.get .segmentCount * segmentSize p.segmentShift := Nat.mul_le_mul_right _ hi
    rw [Nat.succ_mul] at hle
    refine writeBits_of_outside (Or.inr ?_)
    rw [header_eq hp.roomy hin, fpBitmapSize]
    omega

end Keeps

/-! ## References -/

/-- A reference leaves everything but the number of calls, and one that succeeds
is to a segment there is. -/
theorem phFppReferenceSegment_spec (env : PoolEnv) {p : FilePool} {i : Nat}
    (hp : 0 < p.get .segmentCount) :
    (∃ c, (phFppReferenceSegment env p i).1 = { p with calls := c }) ∧
      ((phFppReferenceSegment env p i).2 = true → i < p.get .segmentCount) := by
  unfold phFppReferenceSegment
  split
  · exact ⟨⟨p.calls, rfl⟩, fun h => nomatch h⟩
  · next h =>
      refine ⟨⟨p.calls + 1, rfl⟩, fun _ => ?_⟩
      rw [not_and_or, not_not, Nat.not_le] at h
      rcases h with rfl | h
      · exact hp
      · exact h

theorem referenceLink_spec (env : PoolEnv) {p : FilePool} (link : Nat)
    (hp : 0 < p.get .segmentCount) :
    (∃ c, (referenceLink env p link).1 = { p with calls := c }) ∧
      ((referenceLink env p link).2 = true → link ≠ SystemInformer.ulongMax → link < p.get .segmentCount) := by
  unfold referenceLink
  split
  · next h => exact ⟨⟨p.calls, rfl⟩, fun _ hne => absurd h hne⟩
  · obtain ⟨hcalls, hlt⟩ := phFppReferenceSegment_spec env (i := link) hp
    exact ⟨hcalls, fun h _ => hlt h⟩

/-! ## Free lists -/

def FpField.IsLink : FpField → Prop
  | .freeList _ | .freeFlink _ | .freeBlink _ => True
  | _ => False

abbrev KeepsBlocks (p p' : FilePool) : Prop := Keeps FpField.IsLink (fun _ => False) p p'

theorem KeepsBlocks.freeList {p : FilePool} {k value : Nat} (hp : FileOk p)
    (hk : k < fpFreeListCount) : KeepsBlocks p (p.set (.freeList k) value) :=
  Keeps.set hp hk hp.pos nofun trivial

theorem KeepsBlocks.freeFlink {p : FilePool} {i : Nat} (value : Nat) (hp : FileOk p)
    (hi : i < p.get .segmentCount) : KeepsBlocks p (p.set (.freeFlink i) value) :=
  Keeps.set hp (hp.inFile hi) hi nofun trivial

theorem KeepsBlocks.freeBlink {p : FilePool} {i : Nat} (value : Nat) (hp : FileOk p)
    (hi : i < p.get .segmentCount) : KeepsBlocks p (p.set (.freeBlink i) value) :=
  Keeps.set hp (hp.inFile hi) hi nofun trivial

theorem phFppComputeFreeListIndex_lt {s n : Nat} :
    phFppComputeFreeListIndex s n < fpFreeListCount := by
  unfold phFppComputeFreeListIndex fpFreeListCount
  repeat' split
  all_goals decide

theorem phFppInsertFreeList_keeps (env : PoolEnv) {p : FilePool} {k i : Nat} (hp : FileOk p)
    (hk : k < fpFreeListCount) (hi : i < p.get .segmentCount) :
    KeepsBlocks p (phFppInsertFreeList env p k i).1 := by
  -- The three stores that put the segment at the head of the list.
  have hcommit : ∀ {q : FilePool} (old : Nat), KeepsBlocks p q → KeepsBlocks p
      (((q.set (.freeBlink i) SystemInformer.ulongMax).set (.freeFlink i) old).set (.freeList k) i) := by
    intro q old hq
    have h₁ := hq.trans (KeepsBlocks.freeBlink SystemInformer.ulongMax (hq.fileOk hp)
      (hq.count.symm ▸ hi))
    have h₂ := h₁.trans (KeepsBlocks.freeFlink old (h₁.fileOk hp)
      (h₁.count.symm ▸ hi))
    exact h₂.trans (KeepsBlocks.freeList (h₂.fileOk hp) hk)
  obtain ⟨⟨c, hcalls⟩, hlt⟩ :=
    phFppReferenceSegment_spec env (i := p.get (.freeList k)) hp.pos
  unfold phFppInsertFreeList
  simp only
  split
  · exact hcommit _ Keeps.refl
  · split
    · rw [hcalls]
      exact Keeps.calls
    · next href =>
        rw [hcalls]
        have h := hcommit (p.get (.freeList k)) (Keeps.calls (c := c))
        refine h.trans (KeepsBlocks.freeBlink _ (h.fileOk hp) ?_)
        rw [h.count]
        exact hlt (Bool.eq_true_of_not_eq_false href)

theorem phFppRemoveFreeList_keeps (env : PoolEnv) {p : FilePool} {k i : Nat} (hp : FileOk p)
    (hk : k < fpFreeListCount) : KeepsBlocks p (phFppRemoveFreeList env p k i).1 := by
  obtain ⟨⟨c, hcalls⟩, hflink⟩ :=
    referenceLink_spec env (p.get (.freeFlink i)) hp.pos
  obtain ⟨⟨d, hcalls'⟩, hblink⟩ :=
    referenceLink_spec env (p := { p with calls := c })
      (p.get (.freeBlink i)) hp.pos
  unfold phFppRemoveFreeList
  simp only [hcalls]
  split
  · exact Keeps.calls
  · next h₁ =>
      rw [hcalls']
      split
      · exact Keeps.calls
      · next h₂ =>
          have hq : KeepsBlocks p { p with calls := d } := Keeps.calls
          have hq' : KeepsBlocks p (if p.get (.freeFlink i) = SystemInformer.ulongMax then
              { p with calls := d }
              else FilePool.set { p with calls := d } (.freeBlink (p.get (.freeFlink i)))
                (p.get (.freeBlink i))) := by
            split
            · exact hq
            · next hne =>
                exact hq.trans (KeepsBlocks.freeBlink _ (hq.fileOk hp)
                  (hflink (Bool.eq_true_of_not_eq_false h₁) hne))
          simp only
          split
          · exact hq'.trans (KeepsBlocks.freeList (hq'.fileOk hp) hk)
          · next hne =>
              refine hq'.trans (KeepsBlocks.freeFlink _ (hq'.fileOk hp) ?_)
              rw [hq'.count]
              exact hblink (Bool.eq_true_of_not_eq_false h₂) hne

theorem moveFreeList_keeps (env : PoolEnv) {p : FilePool} {old new i : Nat} (hp : FileOk p)
    (hold : old < fpFreeListCount) (hnew : new < fpFreeListCount)
    (hi : i < p.get .segmentCount) : KeepsBlocks p (moveFreeList env p old new i) := by
  unfold moveFreeList
  split
  · exact Keeps.refl
  · have h := phFppRemoveFreeList_keeps env (i := i) hp hold
    exact h.trans (phFppInsertFreeList_keeps env (h.fileOk hp) hnew (h.count.symm ▸ hi))

/-! ## Blocks -/

/-- The blocks of the headers of segment `i` are marked as used. -/
def HeaderUsed (p : FilePool) (i : Nat) : Prop :=
  ∀ j, j < firstFree p.segmentShift i → p.bit i j = true

def blockFields (s i start : Nat) (f : FpField) : Prop :=
  f = .freeBlocks i ∨ f = .blockFlags i (start * blockSize s) ∨
    f = .blockSpan i (start * blockSize s)

/-- `n` blocks from `start` on were taken from segment `i`. A request for no blocks
is answered with the first block of the segment. -/
structure Taken (p p' : FilePool) (i start n : Nat) : Prop where
  keeps : Keeps (blockFields p.segmentShift i start) (· = i) p p'
  run : ClearRun (p.bit i) fpBlockCount start n
  place : n = 0 ∧ start = 0 ∨ 0 < n ∧ firstFree p.segmentShift i ≤ start
  free : p'.get (.freeBlocks i) = (p.get (.freeBlocks i) + ulongRange - n) % ulongRange
  span : p'.get (.blockSpan i (start * blockSize p.segmentShift)) = n
  bit : ∀ {j}, j < fpBlockCount → p'.bit i j = writeRange (p.bit i) start n true j

theorem firstFree_pos {s i : Nat} (hs : Sizes s) : 0 < firstFree s i :=
  Nat.lt_of_lt_of_le hs.spanPos (Nat.le_add_left _ _)

theorem found_place {env : PoolEnv} {p : FilePool} {i n hint start : Nat}
    (hused : HeaderUsed p i) (hhint : hint < 8)
    (h : env.finder.find (p.bit i) n hint = some start) :
    n = 0 ∧ start = 0 ∨ 0 < n ∧ firstFree p.segmentShift i ≤ start := by
  rcases Nat.eq_zero_or_pos n with rfl | hn
  · have hlt : hint < fpBlockCount := Nat.lt_trans hhint (by decide)
    rw [env.finder.zero hlt, Nat.div_eq_of_lt hhint] at h
    injection h with h
    exact Or.inl ⟨rfl, h.symm⟩
  · refine Or.inr ⟨hn, Nat.not_lt.mp fun hlt => ?_⟩
    have hclear := (env.finder.clear h).2 start (Nat.le_refl _) (by omega)
    rw [hused start hlt] at hclear
    cases hclear

theorem phFppAllocateBlocks_spec (env : PoolEnv) {p : FilePool} {i n : Nat} (hp : FileOk p)
    (hi : i < p.get .segmentCount) (hused : HeaderUsed p i) :
    (phFppAllocateBlocks env p i n = (p, none) ∧
      ∀ start, ¬ ClearRun (p.bit i) fpBlockCount start n) ∨
    ∃ p' start, phFppAllocateBlocks env p i n = (p', some start) ∧ Taken p p' i start n := by
  have hspan := hp.roomy.sizes.spanLe
  have hfile := hp.roomy.sizes.fileSpan
  have hhint : (if i ≠ 0 then segmentHeaderBlockSpan p.segmentShift
      else segmentHeaderBlockSpan p.segmentShift + fileHeaderBlockSpan p.segmentShift) < 8 := by
    split <;> omega
  unfold phFppAllocateBlocks
  simp only
  split
  · next hfind => exact Or.inl ⟨rfl, env.finder.complete hfind⟩
  · next start hfind =>
      have hplace := found_place hused hhint hfind
      have hrun := env.finder.clear hfind
      have hstart : start < fpBlockCount := by
        have hle := hrun.1
        unfold fpBlockCount fpBitmapSize at *
        omega
      have hin := hp.inFile hi
      have hok : BlockOffset p.segmentShift i (start * blockSize p.segmentShift) :=
        ⟨start, rfl, hstart, hplace.elim (fun h => Or.inl h.2) fun h => Or.inr (Or.inr h.2)⟩
      -- The four stores, one after the other.
      let q₁ := p.writeBits i start n true
      let q₂ := q₁.set (.freeBlocks i) ((q₁.get (.freeBlocks i) + ulongRange - n) % ulongRange)
      let q₃ := q₂.set (.blockFlags i (start * blockSize p.segmentShift)) 0
      let q₄ := q₃.set (.blockSpan i (start * blockSize p.segmentShift)) n
      have h₁ : Keeps (blockFields p.segmentShift i start) (· = i) p q₁ :=
        Keeps.writeBits hp hi rfl
      have h₂ : Keeps (blockFields p.segmentShift i start) (· = i) p q₂ :=
        h₁.trans (Keeps.set (h₁.fileOk hp) hin (h₁.count.symm ▸ hi) (by simp) (Or.inl rfl))
      have h₃ : Keeps (blockFields p.segmentShift i start) (· = i) p q₃ :=
        h₂.trans (Keeps.set (h₂.fileOk hp) ⟨hin, hok⟩ (h₂.count.symm ▸ hi) (by simp)
          (Or.inr (Or.inl rfl)))
      have h₄ : Keeps (blockFields p.segmentShift i start) (· = i) p q₄ :=
        h₃.trans (Keeps.set (h₃.fileOk hp) ⟨hin, hok⟩ (h₃.count.symm ▸ hi) (by simp)
          (Or.inr (Or.inr rfl)))
      have hfree : q₁.get (.freeBlocks i) = p.get (.freeBlocks i) :=
        FilePool.get_writeBits hp.roomy hin hin
      refine Or.inr ⟨q₄, start, rfl, h₄, hrun, hplace, ?_, FilePool.get_set_self, ?_⟩
      · calc q₄.get (.freeBlocks i) = q₃.get (.freeBlocks i) :=
              FilePool.get_set_ne hp.roomy ⟨hin, hok⟩ hin (by simp)
          _ = q₂.get (.freeBlocks i) := FilePool.get_set_ne hp.roomy ⟨hin, hok⟩ hin (by simp)
          _ = (q₁.get (.freeBlocks i) + ulongRange - n) % ulongRange := FilePool.get_set_self
          _ = (p.get (.freeBlocks i) + ulongRange - n) % ulongRange := by rw [hfree]
      · intro j hj
        calc q₄.bit i j = q₃.bit i j := FilePool.bit_set hp.roomy ⟨hin, hok⟩ hin hj
          _ = q₂.bit i j := FilePool.bit_set hp.roomy ⟨hin, hok⟩ hin hj
          _ = q₁.bit i j := FilePool.bit_set hp.roomy hin hin hj
          _ = _ := FilePool.bit_writeBits_self hj

/-- `n` blocks from `start` on were given back to segment `i`. -/
structure GivenBack (p p' : FilePool) (i start n : Nat) : Prop where
  keeps : Keeps (· = .freeBlocks i) (· = i) p p'
  free : p'.get (.freeBlocks i) = (p.get (.freeBlocks i) + n) % ulongRange
  bit : ∀ {j}, j < fpBlockCount → p'.bit i j = writeRange (p.bit i) start n false j

theorem phFppFreeBlocks_spec {p : FilePool} {i offset : Nat} (hp : FileOk p)
    (hi : i < p.get .segmentCount) :
    GivenBack p (phFppFreeBlocks p i offset) i (offset / blockSize p.segmentShift)
      (p.get (.blockSpan i offset)) := by
  have hin := hp.inFile hi
  let n := p.get (.blockSpan i offset)
  let q := p.writeBits i (offset / blockSize p.segmentShift) n false
  have hq : Keeps (· = .freeBlocks i) (· = i) p q := Keeps.writeBits hp hi rfl
  have hfree : q.get (.freeBlocks i) = p.get (.freeBlocks i) :=
    FilePool.get_writeBits hp.roomy hin hin
  refine ⟨?_, ?_, ?_⟩
  · exact hq.trans (Keeps.set (hq.fileOk hp) hin (hq.count.symm ▸ hi) nofun rfl)
  · calc (phFppFreeBlocks p i offset).get (.freeBlocks i) =
          (q.get (.freeBlocks i) + n) % ulongRange := FilePool.get_set_self
      _ = (p.get (.freeBlocks i) + n) % ulongRange := by rw [hfree]
  · intro j hj
    calc (phFppFreeBlocks p i offset).bit i j = q.bit i j :=
          FilePool.bit_set hp.roomy hin hin hj
      _ = _ := FilePool.bit_writeBits_self hj

/-! ## Segments -/

def segmentFields (s i : Nat) (f : FpField) : Prop :=
  f = .blockSpan i (headerBlock s i * blockSize s) ∨ f = .freeBlocks i ∨ f = .freeFlink i ∨
    f = .freeBlink i

/-- The first `used` blocks of segment `i` were marked as used, and the segment was
unlinked. -/
structure Initialized (p p' : FilePool) (i used : Nat) : Prop where
  keeps : Keeps (segmentFields p.segmentShift i) (· = i) p p'
  free : p'.get (.freeBlocks i) = fpBlockCount - used
  flink : p'.get (.freeFlink i) = SystemInformer.ulongMax
  blink : p'.get (.freeBlink i) = SystemInformer.ulongMax
  bit : ∀ {j}, j < fpBlockCount → p'.bit i j = writeRange (p.bit i) 0 used true j

theorem phFppInitializeSegment_spec {p : FilePool} {i : Nat} (additionalBlocksUsed : Nat)
    (hp : FileOk p) (hi : i < p.get .segmentCount) :
    Initialized p (phFppInitializeSegment p i additionalBlocksUsed) i
      (segmentHeaderBlockSpan p.segmentShift + additionalBlocksUsed) := by
  have hin := hp.inFile hi
  have hok : BlockOffset p.segmentShift i
      (headerBlock p.segmentShift i * blockSize p.segmentShift) :=
    ⟨_, rfl, Nat.lt_of_le_of_lt (headerBlock_le hp.roomy.sizes) (by decide),
      Or.inr (Or.inl rfl)⟩
  let used := segmentHeaderBlockSpan p.segmentShift + additionalBlocksUsed
  let q₁ := p.set (.blockSpan i (headerBlock p.segmentShift i * blockSize p.segmentShift))
    (segmentHeaderBlockSpan p.segmentShift)
  let q₂ := q₁.writeBits i 0 used true
  let q₃ := q₂.set (.freeBlocks i) (fpBlockCount - used)
  let q₄ := q₃.set (.freeFlink i) SystemInformer.ulongMax
  let q₅ := q₄.set (.freeBlink i) SystemInformer.ulongMax
  have h₁ : Keeps (segmentFields p.segmentShift i) (· = i) p q₁ :=
    Keeps.set hp ⟨hin, hok⟩ hi nofun (Or.inl rfl)
  have h₂ : Keeps (segmentFields p.segmentShift i) (· = i) p q₂ :=
    h₁.trans (Keeps.writeBits (h₁.fileOk hp) (h₁.count.symm ▸ hi) rfl)
  have h₃ : Keeps (segmentFields p.segmentShift i) (· = i) p q₃ :=
    h₂.trans (Keeps.set (h₂.fileOk hp) hin (h₂.count.symm ▸ hi) nofun (Or.inr (Or.inl rfl)))
  have h₄ : Keeps (segmentFields p.segmentShift i) (· = i) p q₄ :=
    h₃.trans (Keeps.set (h₃.fileOk hp) hin (h₃.count.symm ▸ hi) nofun
      (Or.inr (Or.inr (Or.inl rfl))))
  have h₅ : Keeps (segmentFields p.segmentShift i) (· = i) p q₅ :=
    h₄.trans (Keeps.set (h₄.fileOk hp) hin (h₄.count.symm ▸ hi) nofun
      (Or.inr (Or.inr (Or.inr rfl))))
  refine ⟨h₅, ?_, ?_, FilePool.get_set_self, ?_⟩
  · calc q₅.get (.freeBlocks i) = q₄.get (.freeBlocks i) :=
          FilePool.get_set_ne hp.roomy hin hin nofun
      _ = q₃.get (.freeBlocks i) := FilePool.get_set_ne hp.roomy hin hin nofun
      _ = fpBlockCount - used := FilePool.get_set_self
  · calc q₅.get (.freeFlink i) = q₄.get (.freeFlink i) :=
          FilePool.get_set_ne hp.roomy hin hin nofun
      _ = SystemInformer.ulongMax := FilePool.get_set_self
  · intro j hj
    have hbit : q₁.bit i j = p.bit i j := FilePool.bit_set hp.roomy ⟨hin, hok⟩ hin hj
    calc q₅.bit i j = q₄.bit i j := FilePool.bit_set hp.roomy hin hin hj
      _ = q₃.bit i j := FilePool.bit_set hp.roomy hin hin hj
      _ = q₂.bit i j := FilePool.bit_set hp.roomy hin hin hj
      _ = writeRange (q₁.bit i) 0 used true j := FilePool.bit_writeBits_self hj
      _ = writeRange (p.bit i) 0 used true j := by
          unfold writeRange
          rw [hbit]

/-- The section was extended by one segment, and the segment counted. -/
structure Extended (p p' : FilePool) : Prop where
  fileOk : FileOk p'
  shift : p'.segmentShift = p.segmentShift
  count : p'.get .segmentCount = p.get .segmentCount + 1
  get : ∀ {f : FpField}, f.Ok p.segmentShift → f ≠ .segmentCount → p'.get f = p.get f
  bit : ∀ {i j}, InFile p.segmentShift i → j < fpBlockCount → p'.bit i j = p.bit i j
  beyond : ∀ {a}, p.get .segmentCount * segmentSize p.segmentShift ≤ a →
    p'.memory a = p.memory a

/-- What an attempt to add a segment comes to. Where the segment cannot be mapped the
process is gone. -/
theorem phFppAllocateSegment_cases (env : PoolEnv) {p : FilePool} (hp : FileOk p) :
    phFppAllocateSegment env p = none ∨
    (∃ c, phFppAllocateSegment env p = some ({ p with calls := c }, none)) ∨
    ∃ q, Extended p q ∧ phFppAllocateSegment env p =
      some ((phFppInsertFreeList env (phFppInitializeSegment q (p.get .segmentCount) 0) 0
        (p.get .segmentCount)).1, some (p.get .segmentCount)) := by
  have hfits := hp.fits
  have hbound := hp.bound
  have hpos := hp.pos
  have hsize : 0 < segmentSize p.segmentShift := Nat.two_pow_pos _
  have hcount : p.get .segmentCount < ulongRange := by
    have : p.get .segmentCount * 1 ≤ p.get .segmentCount * segmentSize p.segmentShift :=
      Nat.mul_le_mul_left _ hsize
    omega
  cases hext : env.extendSection p.calls with
  | false =>
      refine Or.inr (Or.inl ⟨p.calls + 1, ?_⟩)
      simp only [phFppAllocateSegment, phFppExtendRange, hext, Bool.false_eq_true, if_false,
        if_true]
  | true =>
    -- The section after the extension, with the new segment counted.
    let q₁ : FilePool := { p with
      calls := p.calls + 1
      sectionSize := max p.sectionSize
        ((p.get .segmentCount + 1) % ulongRange * segmentSize p.segmentShift % ulongRange) }
    let q₂ := q₁.set .segmentCount ((p.get .segmentCount + 1) % ulongRange)
    have heq : phFppAllocateSegment env p =
        if (phFppReferenceSegment env q₂ (p.get .segmentCount)).2 = false then none else
          some ((phFppInsertFreeList env (phFppInitializeSegment
            (phFppReferenceSegment env q₂ (p.get .segmentCount)).1 (p.get .segmentCount) 0) 0
            (p.get .segmentCount)).1, some (p.get .segmentCount)) := by
      unfold phFppAllocateSegment phFppExtendRange
      rw [hext]
      rfl
    rw [heq]
    split
    · exact Or.inl rfl
    · next href =>
        refine Or.inr (Or.inr ⟨_, ?_, rfl⟩)
        have hmapped : (p.get .segmentCount + 1) * segmentSize p.segmentShift ≤
            q₂.sectionSize := by
          unfold phFppReferenceSegment at href
          split at href
          · exact absurd rfl href
          · have hoff : segmentOffset p.segmentShift (p.get .segmentCount) =
                p.get .segmentCount * segmentSize p.segmentShift := Nat.mod_eq_of_lt (by omega)
            simp only [Bool.and_eq_false_iff, not_or, decide_eq_false_iff_not, not_not] at href
            have := href.2
            rw [Nat.succ_mul, ← hoff]
            exact this
        have hbound' : q₂.sectionSize < ulongRange :=
          max_lt hbound (Nat.mod_lt _ (by decide))
        have hwrap : (p.get .segmentCount + 1) % ulongRange = p.get .segmentCount + 1 := by
          refine Nat.mod_eq_of_lt ?_
          have : (p.get .segmentCount + 1) * 1 ≤
              (p.get .segmentCount + 1) * segmentSize p.segmentShift :=
            Nat.mul_le_mul_left _ hsize
          omega
        have hcount' : q₂.get .segmentCount = p.get .segmentCount + 1 :=
          FilePool.get_set_self.trans hwrap
        obtain ⟨⟨c, hcalls⟩, -⟩ := phFppReferenceSegment_spec env (p := q₂)
          (i := p.get .segmentCount) (by omega)
        rw [hcalls]
        refine ⟨⟨hp.roomy, ?_, ?_, hbound'⟩, rfl, hcount', ?_, ?_, ?_⟩
        · show 0 < q₂.get .segmentCount
          omega
        · show q₂.get .segmentCount * _ ≤ q₂.sectionSize
          rw [hcount']
          exact hmapped
        · intro f hf hne
          exact FilePool.get_set_ne (p := q₁) hp.roomy trivial hf hne
        · intro i j hi hj
          exact FilePool.bit_set (p := q₁) hp.roomy trivial hi hj
        · intro a ha
          refine Function.update_of_ne ?_ ..
          have hblock := hp.roomy.sizes.block
          have hsegment := hp.roomy.sizes.segment
          have : 1 * segmentSize p.segmentShift ≤
            p.get .segmentCount * segmentSize p.segmentShift := Nat.mul_le_mul_right _ hpos
          show a ≠ 16 + 8
          omega

/-! ## A new file -/

theorem initLists_spec {p : FilePool} {n : Nat} (hs : Roomy p.segmentShift)
    (hn : n ≤ fpFreeListCount) :
    let q := (List.range n).foldl (fun p k => p.set (.freeList k) SystemInformer.ulongMax) p
    q.segmentShift = p.segmentShift ∧ q.sectionSize = p.sectionSize ∧
      (∀ k, k < n → q.get (.freeList k) = SystemInformer.ulongMax) ∧
      (∀ a, a < 40 ∨ 40 + 4 * n ≤ a → q.memory a = p.memory a) := by
  induction n with
  | zero => exact ⟨rfl, rfl, fun k hk => absurd hk (Nat.not_lt_zero k), fun a _ => rfl⟩
  | succ n ih =>
      rw [List.range_succ, List.foldl_append]
      obtain ⟨hshift, hsize, hlists, hmem⟩ := ih (by omega)
      refine ⟨hshift, hsize, ?_, ?_⟩
      · intro k hk
        by_cases hkn : k = n
        · subst hkn
          exact FilePool.get_set_self
        · refine (FilePool.get_set_ne (hshift.symm ▸ hs) ?_ ?_ ?_).trans (hlists k (by omega))
          · exact hn
          · exact Nat.lt_of_lt_of_le hk hn
          · intro h
            injection h with h
            exact hkn h
      · intro a ha
        refine (Function.update_of_ne ?_ ..).trans (hmem a (by omega))
        show a ≠ 16 + 24 + 4 * n
        omega

/-- The file with its header, before the first segment is set up in it. -/
structure HeaderSet (s : Nat) (p : FilePool) : Prop where
  fileOk : FileOk p
  shift : p.segmentShift = s
  count : p.get .segmentCount = 1
  lists : ∀ k, k < fpFreeListCount → p.get (.freeList k) = SystemInformer.ulongMax
  zero : ∀ a, 72 ≤ a → p.memory a = 0

theorem HeaderSet.bit {s i j : Nat} {p : FilePool} (h : HeaderSet s p)
    (hi : InFile s i) : p.bit i j = false := by
  have hsizes := h.fileOk.roomy.sizes
  have hblock := hsizes.block
  have hseg := hsizes.segment
  unfold FilePool.bit bitAt
  rw [h.zero, Nat.zero_testBit]
  rw [h.shift] at *
  rw [header_eq (h.shift ▸ h.fileOk.roomy) hi]
  rcases Nat.eq_zero_or_pos i with rfl | hpos
  · rw [headerBlock, if_pos rfl, hsizes.fileSpan]
    omega
  · have : 1 * segmentSize s ≤ i * segmentSize s := Nat.mul_le_mul_right _ hpos
    omega

theorem Roomy.validate {segmentShift : Nat} (h : 18 ≤ segmentShift) :
    Roomy (phpValidateFilePoolParameters segmentShift) := by
  unfold Roomy phpValidateFilePoolParameters
  split
  · omega
  · split <;> omega

theorem phFppExtendRange_eq {env : PoolEnv} {p : FilePool} {newSize : Nat}
    (h : (phFppExtendRange env p newSize).2 = true) :
    (phFppExtendRange env p newSize).1 =
      { p with calls := p.calls + 1, sectionSize := max p.sectionSize newSize } := by
  unfold phFppExtendRange at *
  split at h
  · next hext => rw [if_pos hext]
  · cases h

theorem initializeHeader_spec {p : FilePool} (hs : Roomy p.segmentShift) :
    (initializeHeader p).segmentShift = p.segmentShift ∧
      (initializeHeader p).sectionSize = p.sectionSize ∧
      (initializeHeader p).get .segmentCount = 1 ∧
      (∀ k, k < fpFreeListCount → (initializeHeader p).get (.freeList k) = SystemInformer.ulongMax) ∧
      (∀ a, 72 ≤ a → (initializeHeader p).memory a = p.memory a) := by
  let q := ((p.set .magic fpMagic).set .segmentShift p.segmentShift).set .segmentCount 1
  obtain ⟨hshift, hsize, hlists, hmem⟩ := initLists_spec (p := q) hs (Nat.le_refl _)
  refine ⟨hshift, hsize, ?_, hlists, ?_⟩
  · have hq : q.get .segmentCount = 1 := FilePool.get_set_self
    exact (hmem 24 (by decide)).trans hq
  · intro a ha
    refine (hmem a (Or.inr ha)).trans ?_
    show Function.update (Function.update (Function.update p.memory 16 _) 20 _) 24 _ a = _
    rw [Function.update_of_ne (by omega), Function.update_of_ne (by omega),
      Function.update_of_ne (by omega)]

theorem phCreateFilePool_cases {env : PoolEnv} {segmentShift : Nat} {p : FilePool}
    (hshift : 18 ≤ segmentShift) (h : phCreateFilePool env segmentShift = some p) :
    ∃ q, HeaderSet (phpValidateFilePoolParameters segmentShift) q ∧
      p = initializeFirstSegment q := by
  have hs := Roomy.validate hshift
  obtain ⟨hshift, hsize, hcount, hlists, hmem⟩ := initializeHeader_spec
    (p := ⟨phpValidateFilePoolParameters segmentShift, fun _ => 0, pageSize, 1⟩) hs
  unfold phCreateFilePool at h
  generalize initializeHeader _ = q at *
  simp only at h hshift hsize
  split at h
  · cases h
  · split at h
    · cases h
    · next hext =>
        rw [phFppExtendRange_eq (Bool.eq_true_of_not_eq_false hext)] at h
        split at h
        · cases h
        · injection h with h
          refine ⟨_, ?_, h.symm⟩
          obtain ⟨⟨c, hcalls⟩, -⟩ := phFppReferenceSegment_spec env (i := 0)
            (p := { q with
              calls := q.calls + 1
              sectionSize := max q.sectionSize (segmentSize q.segmentShift) })
            (Nat.lt_of_lt_of_eq Nat.zero_lt_one hcount.symm)
          rw [hcalls]
          have hsegment : segmentSize (phpValidateFilePoolParameters segmentShift) < ulongRange :=
            Nat.pow_lt_pow_right (by decide) (Nat.lt_of_le_of_lt hs.2 (by decide))
          refine ⟨⟨?_, ?_, ?_, ?_⟩, hshift, hcount, hlists, hmem⟩
          · exact hshift.symm ▸ hs
          · exact Nat.lt_of_lt_of_eq Nat.zero_lt_one hcount.symm
          · show q.get .segmentCount * segmentSize q.segmentShift ≤ max _ _
            rw [hcount, Nat.one_mul]
            exact le_max_right _ _
          · show max q.sectionSize (segmentSize q.segmentShift) < ulongRange
            rw [hshift, hsize]
            exact max_lt (by decide) hsegment

end SystemInformer.PhLib
