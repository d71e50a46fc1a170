import SystemInformer.Lib.DList
import SystemInformer.Proofs.FilePoolSafety

/-!
# The free lists of a file pool

As long as every mapping succeeds, the eight lists together hold each segment once,
in the list for its number of free blocks. The links are the words in the segment
headers, read as the links of `DList`; inserting and removing a segment is what the
library says of the two operations, at these links. The lists are all that an
allocation looks at, so it adds a segment only if none has the blocks it needs.
-/

namespace SystemInformer.PhLib

open Bitmap DList

/-- A link of a free list, `ULONG_MAX` being none. -/
def linkOf (word : Nat) : Option Nat := if word = SystemInformer.ulongMax then none else some word

theorem linkOf_some {word : Nat} (h : word ≠ SystemInformer.ulongMax) : linkOf word = some word := if_neg h

theorem linkOf_eq_some {word i : Nat} (h : linkOf word = some i) : word = i ∧ i ≠ SystemInformer.ulongMax := by
  unfold linkOf at h
  split at h
  · cases h
  · next hne =>
      injection h with h
      exact ⟨h, h ▸ hne⟩

def flinkOf (p : FilePool) (i : Nat) : Option Nat := linkOf (p.get (.freeFlink i))

def blinkOf (p : FilePool) (i : Nat) : Option Nat := linkOf (p.get (.freeBlink i))

/-- The free lists of a pool are these lists of segments, and no segment is on two. -/
structure Threaded (p : FilePool) (lists : Nat → List Nat) : Prop where
  list : ∀ k, k < fpFreeListCount →
    IsList (flinkOf p) (blinkOf p) (linkOf (p.get (.freeList k))) (lists k)
  nodup : ∀ k, k < fpFreeListCount → (lists k).Nodup
  segments : ∀ k, k < fpFreeListCount → ∀ i ∈ lists k, i < p.get .segmentCount
  once : ∀ k, k < fpFreeListCount → ∀ k', k' < fpFreeListCount → ∀ i ∈ lists k, i ∈ lists k' →
    k = k'

theorem FileOk.ne_ulongMax {p : FilePool} {i : Nat} (hp : FileOk p)
    (hi : i < p.get .segmentCount) : i ≠ SystemInformer.ulongMax := by
  have hsize : 0 < segmentSize p.segmentShift := Nat.two_pow_pos _
  have hle : (i + 1) * 1 ≤ p.get .segmentCount * segmentSize p.segmentShift :=
    Nat.mul_le_mul hi hsize
  have hfits := hp.fits
  have hbound := hp.bound
  unfold SystemInformer.ulongMax
  unfold ulongRange at hbound
  omega

theorem Threaded.congr {p p' : FilePool} {lists : Nat → List Nat} (h : Threaded p lists)
    (hcount : p.get .segmentCount ≤ p'.get .segmentCount)
    (hlist : ∀ k, k < fpFreeListCount → p'.get (.freeList k) = p.get (.freeList k))
    (hflink : ∀ i, i < p.get .segmentCount → p'.get (.freeFlink i) = p.get (.freeFlink i))
    (hblink : ∀ i, i < p.get .segmentCount → p'.get (.freeBlink i) = p.get (.freeBlink i)) :
    Threaded p' lists := by
  refine ⟨?_, h.nodup, ?_, h.once⟩
  · intro k hk
    rw [hlist k hk]
    refine (h.list k hk).congr (fun a ha => ?_) fun a ha => ?_
    · unfold flinkOf
      rw [hflink a (h.segments k hk a ha)]
    · unfold blinkOf
      rw [hblink a (h.segments k hk a ha)]
  · intro k hk i hi
    exact Nat.lt_of_lt_of_le (h.segments k hk i hi) hcount

theorem Threaded.keep {S : FpField → Prop} {B : Nat → Prop} {p p' : FilePool}
    {lists : Nat → List Nat} (hp : FileOk p) (h : Threaded p lists) (hk : Keeps S B p p')
    (hS : ∀ f : FpField, f.InHeader (p.get .segmentCount) → f.IsLink → ¬ S f) :
    Threaded p' lists := by
  have hget : ∀ f : FpField, f.InHeader (p.get .segmentCount) → f.IsLink →
      p'.get f = p.get f := fun f hf hl => hk.get (hf.ok hp) (hS f hf hl)
  exact h.congr hk.count.ge (fun k hk' => hget (.freeList k) hk' trivial)
    (fun i hi => hget (.freeFlink i) hi trivial) fun i hi => hget (.freeBlink i) hi trivial

/-! ## References that succeed -/

section Calm

variable {env : PoolEnv} {p : FilePool} {i : Nat}

theorem phFppReferenceSegment_calm (hmap : ∀ n, env.mapView n = true) (hp : FileOk p)
    (hi : i < p.get .segmentCount) :
    phFppReferenceSegment env p i = ({ p with calls := p.calls + 1 }, true) := by
  have hin := hp.inFile hi
  have hle : (i + 1) * segmentSize p.segmentShift ≤
      p.get .segmentCount * segmentSize p.segmentShift := Nat.mul_le_mul_right _ hi
  have hfits := hp.fits
  rw [Nat.succ_mul, ← segmentOffset_eq hp.roomy.sizes hin] at hle
  unfold phFppReferenceSegment
  rw [if_neg (by omega), hmap, Bool.true_and, decide_eq_true (by omega)]

theorem referenceLink_calm {link : Nat} (hmap : ∀ n, env.mapView n = true) (hp : FileOk p)
    (hlink : link ≠ SystemInformer.ulongMax → link < p.get .segmentCount) :
    ∃ c, referenceLink env p link = ({ p with calls := c }, true) := by
  unfold referenceLink
  split
  · exact ⟨p.calls, rfl⟩
  · next hne => exact ⟨p.calls + 1, phFppReferenceSegment_calm hmap hp (hlink hne)⟩

end Calm

/-! ## Inserting and removing -/

theorem FilePool.get_set {p : FilePool} {f g : FpField} {value : Nat}
    (hs : Roomy p.segmentShift) (hf : f.Ok p.segmentShift) (hg : g.Ok p.segmentShift) :
    (p.set f value).get g = if g = f then value else p.get g := by
  split
  · next h =>
      subst h
      exact FilePool.get_set_self
  · next h => exact FilePool.get_set_ne hs hf hg h

/-- What the fields hold after segment `i` was put in front of list `k`. -/
def insertedGet (p : FilePool) (k i : Nat) (g : FpField) : Nat :=
  if p.get (.freeList k) ≠ SystemInformer.ulongMax ∧ g = .freeBlink (p.get (.freeList k)) then i
  else if g = .freeList k then i
  else if g = .freeFlink i then p.get (.freeList k)
  else if g = .freeBlink i then SystemInformer.ulongMax
  else p.get g

theorem phFppInsertFreeList_get {env : PoolEnv} {p : FilePool} {k i : Nat} {g : FpField}
    (hmap : ∀ n, env.mapView n = true) (hp : FileOk p) (hk : k < fpFreeListCount)
    (hi : i < p.get .segmentCount)
    (hhead : p.get (.freeList k) ≠ SystemInformer.ulongMax → p.get (.freeList k) < p.get .segmentCount)
    (hg : g.Ok p.segmentShift) :
    (phFppInsertFreeList env p k i).1.get g = insertedGet p k i g := by
  have hs := hp.roomy
  have hflink : (FpField.freeFlink i).Ok p.segmentShift := hp.inFile hi
  have hblink : (FpField.freeBlink i).Ok p.segmentShift := hp.inFile hi
  have hlist : (FpField.freeList k).Ok p.segmentShift := hk
  -- The stores that are made in both cases.
  let q₁ (c : Nat) : FilePool := FilePool.set { p with calls := c } (.freeBlink i) SystemInformer.ulongMax
  let q₂ (c : Nat) : FilePool := (q₁ c).set (.freeFlink i) (p.get (.freeList k))
  let q₃ (c : Nat) : FilePool := (q₂ c).set (.freeList k) i
  have hcommit : ∀ c, (q₃ c).get g = if g = .freeList k then i
      else if g = .freeFlink i then p.get (.freeList k)
      else if g = .freeBlink i then SystemInformer.ulongMax else p.get g := by
    intro c
    have h₁ : (q₁ c).get g = if g = .freeBlink i then SystemInformer.ulongMax else p.get g :=
      FilePool.get_set (p := { p with calls := c }) hs hblink hg
    have h₂ : (q₂ c).get g =
        if g = .freeFlink i then p.get (.freeList k) else (q₁ c).get g :=
      FilePool.get_set (p := q₁ c) hs hflink hg
    have h₃ : (q₃ c).get g = if g = .freeList k then i else (q₂ c).get g :=
      FilePool.get_set (p := q₂ c) hs hlist hg
    rw [h₃, h₂, h₁]
  unfold phFppInsertFreeList insertedGet
  by_cases hold : p.get (.freeList k) = SystemInformer.ulongMax
  · simp only [if_pos hold]
    rw [if_neg (fun h => h.1 hold)]
    exact hcommit p.calls
  · have hlt := hhead hold
    have hblink' : (FpField.freeBlink (p.get (.freeList k))).Ok p.segmentShift := hp.inFile hlt
    have h₄ : ((q₃ (p.calls + 1)).set (.freeBlink (p.get (.freeList k))) i).get g =
        if g = .freeBlink (p.get (.freeList k)) then i else (q₃ (p.calls + 1)).get g :=
      FilePool.get_set (p := q₃ (p.calls + 1)) hs hblink' hg
    simp only [if_neg hold, phFppReferenceSegment_calm hmap hp hlt, Bool.true_eq_false, if_false]
    refine h₄.trans ?_
    by_cases hgo : g = .freeBlink (p.get (.freeList k))
    · rw [if_pos hgo, if_pos ⟨hold, hgo⟩]
    · rw [if_neg hgo, if_neg fun h => hgo h.2]
      exact hcommit _

/-- What the fields hold after segment `i` was taken out of list `k`. -/
def removedGet (p : FilePool) (k i : Nat) (g : FpField) : Nat :=
  if p.get (.freeBlink i) = SystemInformer.ulongMax ∧ g = .freeList k then p.get (.freeFlink i)
  else if p.get (.freeBlink i) ≠ SystemInformer.ulongMax ∧ g = .freeFlink (p.get (.freeBlink i)) then
    p.get (.freeFlink i)
  else if p.get (.freeFlink i) ≠ SystemInformer.ulongMax ∧ g = .freeBlink (p.get (.freeFlink i)) then
    p.get (.freeBlink i)
  else p.get g

theorem phFppRemoveFreeList_get {env : PoolEnv} {p : FilePool} {k i : Nat} {g : FpField}
    (hmap : ∀ n, env.mapView n = true) (hp : FileOk p) (hk : k < fpFreeListCount)
    (hflink : p.get (.freeFlink i) ≠ SystemInformer.ulongMax → p.get (.freeFlink i) < p.get .segmentCount)
    (hblink : p.get (.freeBlink i) ≠ SystemInformer.ulongMax → p.get (.freeBlink i) < p.get .segmentCount)
    (hg : g.Ok p.segmentShift) :
    (phFppRemoveFreeList env p k i).1.get g = removedGet p k i g := by
  have hs := hp.roomy
  have hlist : (FpField.freeList k).Ok p.segmentShift := hk
  obtain ⟨c, hc⟩ := referenceLink_calm hmap hp hflink
  obtain ⟨d, hd⟩ := referenceLink_calm (p := { p with calls := c }) hmap hp.calls hblink
  -- The pool after the successor was linked to the predecessor.
  let q : FilePool := if p.get (.freeFlink i) = SystemInformer.ulongMax then { p with calls := d }
    else FilePool.set { p with calls := d } (.freeBlink (p.get (.freeFlink i)))
      (p.get (.freeBlink i))
  have hq : q.segmentShift = p.segmentShift ∧ q.get g =
      if p.get (.freeFlink i) ≠ SystemInformer.ulongMax ∧ g = .freeBlink (p.get (.freeFlink i)) then
        p.get (.freeBlink i) else p.get g := by
    by_cases hnone : p.get (.freeFlink i) = SystemInformer.ulongMax
    · rw [if_neg fun h => h.1 hnone]
      simp only [q, if_pos hnone]
      exact ⟨trivial, rfl⟩
    · have hok : (FpField.freeBlink (p.get (.freeFlink i))).Ok p.segmentShift :=
        hp.inFile (hflink hnone)
      simp only [q, if_neg hnone]
      refine ⟨rfl, ?_⟩
      rw [FilePool.get_set (p := { p with calls := d }) hs hok hg]
      by_cases hgo : g = .freeBlink (p.get (.freeFlink i))
      · rw [if_pos hgo, if_pos ⟨hnone, hgo⟩]
      · rw [if_neg hgo, if_neg fun h => hgo h.2]
        rfl
  have heq : (phFppRemoveFreeList env p k i).1 =
      if p.get (.freeBlink i) = SystemInformer.ulongMax then q.set (.freeList k) (p.get (.freeFlink i))
      else q.set (.freeFlink (p.get (.freeBlink i))) (p.get (.freeFlink i)) := by
    unfold phFppRemoveFreeList
    simp only [hc, hd, Bool.true_eq_false, if_false, q]
  obtain ⟨hshift, hqg⟩ := hq
  rw [heq, removedGet, ← hqg]
  rw [← hshift] at hs hg hlist
  by_cases hnone : p.get (.freeBlink i) = SystemInformer.ulongMax
  · rw [if_pos hnone, FilePool.get_set hs hlist hg]
    by_cases hgo : g = .freeList k
    · rw [if_pos hgo, if_pos ⟨hnone, hgo⟩]
    · rw [if_neg hgo, if_neg (fun h => hgo h.2), if_neg (fun h => h.1 hnone)]
  · have hok : (FpField.freeFlink (p.get (.freeBlink i))).Ok q.segmentShift := by
      rw [hshift]
      exact hp.inFile (hblink hnone)
    rw [if_neg hnone, FilePool.get_set hs hok hg]
    by_cases hgo : g = .freeFlink (p.get (.freeBlink i))
    · rw [if_pos hgo, if_neg (fun h : _ ∧ _ => hnone h.1), if_pos ⟨hnone, hgo⟩]
    · rw [if_neg hgo, if_neg (fun h : _ ∧ _ => hnone h.1), if_neg fun h => hgo h.2]

section Calm

variable {env : PoolEnv} {p : FilePool} {lists : Nat → List Nat} {k i : Nat}

theorem Threaded.head_lt (h : Threaded p lists) (hk : k < fpFreeListCount)
    (hne : p.get (.freeList k) ≠ SystemInformer.ulongMax) : p.get (.freeList k) ∈ lists k := by
  have hhead := (h.list k hk).head_eq
  rw [linkOf_some hne] at hhead
  exact List.mem_of_head? hhead.symm

theorem Threaded.flink_mem (h : Threaded p lists) (hk : k < fpFreeListCount) (hi : i ∈ lists k)
    (hne : p.get (.freeFlink i) ≠ SystemInformer.ulongMax) : p.get (.freeFlink i) ∈ lists k :=
  (h.list k hk).next_mem hi (linkOf_some hne)

theorem Threaded.blink_mem (h : Threaded p lists) (hk : k < fpFreeListCount) (hi : i ∈ lists k)
    (hne : p.get (.freeBlink i) ≠ SystemInformer.ulongMax) : p.get (.freeBlink i) ∈ lists k :=
  (h.list k hk).prev_mem hi (linkOf_some hne)

theorem mem_update_cons {k' a : Nat} :
    a ∈ Function.update lists k (i :: lists k) k' ↔ k' = k ∧ a = i ∨ a ∈ lists k' := by
  by_cases hkk : k' = k
  · subst hkk
    rw [Function.update_self, List.mem_cons]
    exact or_congr_left (by simp)
  · rw [Function.update_of_ne hkk]
    exact ⟨Or.inr, fun h => h.resolve_left fun h => hkk h.1⟩

theorem Threaded.insert (hmap : ∀ n, env.mapView n = true) (hp : FileOk p)
    (h : Threaded p lists) (hk : k < fpFreeListCount) (hi : i < p.get .segmentCount)
    (hnew : ∀ k', k' < fpFreeListCount → i ∉ lists k') :
    Threaded (phFppInsertFreeList env p k i).1 (Function.update lists k (i :: lists k)) := by
  have hkeeps := phFppInsertFreeList_keeps env hp hk hi
  have hmem : p.get (.freeList k) ≠ SystemInformer.ulongMax → p.get (.freeList k) ∈ lists k :=
    h.head_lt hk
  have hhead : p.get (.freeList k) ≠ SystemInformer.ulongMax → p.get (.freeList k) < p.get .segmentCount :=
    fun hne => h.segments k hk _ (hmem hne)
  have hget : ∀ {g : FpField}, g.Ok p.segmentShift →
      (phFppInsertFreeList env p k i).1.get g = insertedGet p k i g :=
    fun hg => phFppInsertFreeList_get hmap hp hk hi hhead hg
  generalize (phFppInsertFreeList env p k i).1 = p' at hkeeps hget
  have hi' : i ≠ SystemInformer.ulongMax := hp.ne_ulongMax hi
  -- The words after the insertion, for the segments there are.
  have hlist : ∀ k', k' < fpFreeListCount →
      p'.get (.freeList k') = if k' = k then i else p.get (.freeList k') := by
    intro k' hk'
    rw [hget (g := .freeList k') hk']
    simp [insertedGet]
  have hflink : ∀ a, a < p.get .segmentCount →
      p'.get (.freeFlink a) = if a = i then p.get (.freeList k) else p.get (.freeFlink a) := by
    intro a ha
    rw [hget (g := .freeFlink a) (hp.inFile ha)]
    simp [insertedGet]
  have hblink : ∀ a, a < p.get .segmentCount →
      p'.get (.freeBlink a) = if a = p.get (.freeList k) then i
        else if a = i then SystemInformer.ulongMax else p.get (.freeBlink a) := by
    intro a ha
    have hne := hp.ne_ulongMax ha
    rw [hget (g := .freeBlink a) (hp.inFile ha)]
    by_cases hold : a = p.get (.freeList k)
    · simp [insertedGet, ← hold, hne]
    · simp [insertedGet, hold]
  have hne : ∀ {a}, a ∈ lists k → a ≠ i := fun ha heq => hnew k hk (heq ▸ ha)
  refine ⟨?_, ?_, ?_, ?_⟩
  · intro k' hk'
    rw [hlist k' hk']
    by_cases hkk : k' = k
    · subst hkk
      rw [if_pos rfl, Function.update_self, linkOf_some hi']
      refine (h.list k' hk).insert (hnew k' hk) (h.nodup k' hk) ?_ ?_ ?_ ?_ ?_
      · unfold flinkOf
        rw [hflink i hi, if_pos rfl]
      · intro a ha
        unfold flinkOf
        rw [hflink a (h.segments k' hk a ha), if_neg (hne ha)]
      · have hold : i ≠ p.get (.freeList k') := fun heq =>
          hnew k' hk (heq ▸ hmem (heq ▸ hi'))
        unfold blinkOf linkOf
        rw [hblink i hi, if_neg hold, if_pos rfl, if_pos rfl]
      · intro a ha
        obtain ⟨rfl, hold⟩ := linkOf_eq_some ha
        unfold blinkOf
        rw [hblink _ (hhead hold), if_pos rfl, linkOf_some hi']
      · intro a ha hold
        have hlt := h.segments k' hk a ha
        have hold' : a ≠ p.get (.freeList k') := by
          intro heq
          rw [← heq] at hold
          exact hold (linkOf_some (hp.ne_ulongMax hlt))
        unfold blinkOf
        rw [hblink a hlt, if_neg hold', if_neg (hne ha)]
    · rw [if_neg hkk, Function.update_of_ne hkk]
      refine (h.list k' hk').congr (fun a ha => ?_) fun a ha => ?_
      · have hai : a ≠ i := fun heq => hnew k' hk' (heq ▸ ha)
        unfold flinkOf
        rw [hflink a (h.segments k' hk' a ha), if_neg hai]
      · have hai : a ≠ i := fun heq => hnew k' hk' (heq ▸ ha)
        have hlt := h.segments k' hk' a ha
        have hold : a ≠ p.get (.freeList k) := fun heq =>
          hkk (h.once k' hk' k hk a ha (heq ▸ hmem (heq ▸ hp.ne_ulongMax hlt)))
        unfold blinkOf
        rw [hblink a hlt, if_neg hold, if_neg hai]
  · intro k' hk'
    by_cases hkk : k' = k
    · subst hkk
      rw [Function.update_self]
      exact List.nodup_cons.mpr ⟨hnew k' hk, h.nodup k' hk⟩
    · rw [Function.update_of_ne hkk]
      exact h.nodup k' hk'
  · intro k' hk' a ha
    rw [hkeeps.count]
    rcases mem_update_cons.mp ha with ⟨-, rfl⟩ | ha
    · exact hi
    · exact h.segments k' hk' a ha
  · intro k₁ hk₁ k₂ hk₂ a h₁ h₂
    rcases mem_update_cons.mp h₁ with ⟨rfl, rfl⟩ | hmem₁
    · rcases mem_update_cons.mp h₂ with ⟨rfl, -⟩ | hmem₂
      · rfl
      · exact absurd hmem₂ (hnew k₂ hk₂)
    · rcases mem_update_cons.mp h₂ with ⟨rfl, rfl⟩ | hmem₂
      · exact absurd hmem₁ (hnew k₁ hk₁)
      · exact h.once k₁ hk₁ k₂ hk₂ a hmem₁ hmem₂

theorem Threaded.remove (hmap : ∀ n, env.mapView n = true) (hp : FileOk p)
    (h : Threaded p lists) (hk : k < fpFreeListCount) (hi : i ∈ lists k) :
    Threaded (phFppRemoveFreeList env p k i).1
      (Function.update lists k ((lists k).erase i)) := by
  have hkeeps := phFppRemoveFreeList_keeps env (i := i) hp hk
  have hilt := h.segments k hk i hi
  have hi' : i ≠ SystemInformer.ulongMax := hp.ne_ulongMax hilt
  have hf : p.get (.freeFlink i) ≠ SystemInformer.ulongMax → p.get (.freeFlink i) ∈ lists k :=
    h.flink_mem hk hi
  have hb : p.get (.freeBlink i) ≠ SystemInformer.ulongMax → p.get (.freeBlink i) ∈ lists k :=
    h.blink_mem hk hi
  have hget : ∀ {g : FpField}, g.Ok p.segmentShift →
      (phFppRemoveFreeList env p k i).1.get g = removedGet p k i g :=
    fun hg => phFppRemoveFreeList_get hmap hp hk
      (fun hne => h.segments k hk _ (hf hne)) (fun hne => h.segments k hk _ (hb hne)) hg
  generalize (phFppRemoveFreeList env p k i).1 = p' at hkeeps hget
  have hlist : ∀ k', k' < fpFreeListCount → p'.get (.freeList k') =
      if p.get (.freeBlink i) = SystemInformer.ulongMax ∧ k' = k then p.get (.freeFlink i)
      else p.get (.freeList k') := by
    intro k' hk'
    rw [hget (g := .freeList k') hk']
    simp [removedGet]
  have hflink : ∀ a, a < p.get .segmentCount → p'.get (.freeFlink a) =
      if a = p.get (.freeBlink i) then p.get (.freeFlink i) else p.get (.freeFlink a) := by
    intro a ha
    have hne := hp.ne_ulongMax ha
    rw [hget (g := .freeFlink a) (hp.inFile ha)]
    by_cases hold : a = p.get (.freeBlink i)
    · simp [removedGet, ← hold, hne]
    · simp [removedGet, hold]
  have hblink : ∀ a, a < p.get .segmentCount → p'.get (.freeBlink a) =
      if a = p.get (.freeFlink i) then p.get (.freeBlink i) else p.get (.freeBlink a) := by
    intro a ha
    have hne := hp.ne_ulongMax ha
    rw [hget (g := .freeBlink a) (hp.inFile ha)]
    by_cases hold : a = p.get (.freeFlink i)
    · simp [removedGet, ← hold, hne]
    · simp [removedGet, hold]
  -- A segment of another list is no neighbour of this one.
  have hother : ∀ {k' a}, k' < fpFreeListCount → k' ≠ k → a ∈ lists k' →
      a ≠ p.get (.freeFlink i) ∧ a ≠ p.get (.freeBlink i) := by
    intro k' a hk' hkk ha
    have hne := hp.ne_ulongMax (h.segments k' hk' a ha)
    exact ⟨fun heq => hkk (h.once k' hk' k hk a ha (heq ▸ hf (heq ▸ hne))),
      fun heq => hkk (h.once k' hk' k hk a ha (heq ▸ hb (heq ▸ hne)))⟩
  have hsub : ∀ {k' a}, a ∈ Function.update lists k ((lists k).erase i) k' → a ∈ lists k' := by
    intro k' a ha
    by_cases hkk : k' = k
    · subst hkk
      rw [Function.update_self] at ha
      exact List.mem_of_mem_erase ha
    · rwa [Function.update_of_ne hkk] at ha
  refine ⟨?_, ?_, ?_, ?_⟩
  · intro k' hk'
    rw [hlist k' hk']
    by_cases hkk : k' = k
    · subst hkk
      rw [Function.update_self]
      obtain ⟨l₁, l₂, hl⟩ := List.append_of_mem hi
      have hnodup := h.nodup k' hk
      have herase : (lists k').erase i = l₁ ++ l₂ := by
        rw [hl] at hnodup ⊢
        have hnot : i ∉ l₁ := fun hmem =>
          (List.nodup_append.mp hnodup).2.2 i hmem i List.mem_cons_self rfl
        rw [List.erase_append_right _ hnot, List.erase_cons_head]
      have hmem : ∀ {a}, a ∈ l₁ ++ l₂ → a < p.get .segmentCount := fun ha =>
        h.segments k' hk _ (List.mem_of_mem_erase (herase ▸ ha))
      rw [herase]
      have hil := h.list k' hk
      rw [hl] at hil hnodup
      refine hil.remove hnodup ?_ ?_ ?_ ?_ ?_
      · unfold blinkOf flinkOf
        by_cases hnone : p.get (.freeBlink i) = SystemInformer.ulongMax
        · rw [if_pos ⟨hnone, rfl⟩, if_pos (by unfold linkOf; exact if_pos hnone)]
        · rw [if_neg (fun h => hnone h.1), if_neg (by rw [linkOf_some hnone]; exact nofun)]
      · intro a ha
        obtain ⟨rfl, hne⟩ := linkOf_eq_some ha
        unfold blinkOf
        rw [hblink _ (h.segments k' hk _ (hf hne)), if_pos rfl]
      · intro a ha
        obtain ⟨rfl, hne⟩ := linkOf_eq_some ha
        unfold flinkOf
        rw [hflink _ (h.segments k' hk _ (hb hne)), if_pos rfl]
      · intro a ha hne
        have hlt := hmem ha
        have hold : a ≠ p.get (.freeBlink i) := fun heq =>
          hne (heq ▸ linkOf_some (heq ▸ hp.ne_ulongMax hlt))
        unfold flinkOf
        rw [hflink a hlt, if_neg hold]
      · intro a ha hne
        have hlt := hmem ha
        have hold : a ≠ p.get (.freeFlink i) := fun heq =>
          hne (heq ▸ linkOf_some (heq ▸ hp.ne_ulongMax hlt))
        unfold blinkOf
        rw [hblink a hlt, if_neg hold]
    · rw [if_neg (fun h => hkk h.2), Function.update_of_ne hkk]
      refine (h.list k' hk').congr (fun a ha => ?_) fun a ha => ?_
      · unfold flinkOf
        rw [hflink a (h.segments k' hk' a ha), if_neg (hother hk' hkk ha).2]
      · unfold blinkOf
        rw [hblink a (h.segments k' hk' a ha), if_neg (hother hk' hkk ha).1]
  · intro k' hk'
    by_cases hkk : k' = k
    · subst hkk
      rw [Function.update_self]
      exact (h.nodup k' hk).erase i
    · rw [Function.update_of_ne hkk]
      exact h.nodup k' hk'
  · intro k' hk' a ha
    rw [hkeeps.count]
    exact h.segments k' hk' a (hsub ha)
  · intro k₁ hk₁ k₂ hk₂ a h₁ h₂
    exact h.once k₁ hk₁ k₂ hk₂ a (hsub h₁) (hsub h₂)

end Calm

/-! ## Every segment in its list -/

def listOf (p : FilePool) (i : Nat) : Nat :=
  phFppComputeFreeListIndex p.segmentShift (p.get (.freeBlocks i))

theorem listOf_congr {p p' : FilePool} {i : Nat} (hshift : p'.segmentShift = p.segmentShift)
    (hfree : p'.get (.freeBlocks i) = p.get (.freeBlocks i)) : listOf p' i = listOf p i := by
  unfold listOf
  rw [hshift, hfree]

/-- The lists hold the segments there are, each in the list it is assigned to. -/
def Filed (p : FilePool) (lists : Nat → List Nat) (assigned : Nat → Nat) : Prop :=
  ∀ k, k < fpFreeListCount → ∀ i, i ∈ lists k ↔ i < p.get .segmentCount ∧ assigned i = k

/-- The counts of free blocks are those of the bitmaps, and past the last segment
the file is blank. -/
structure Accounted (p : FilePool) : Prop where
  free : ∀ i, i < p.get .segmentCount → p.get (.freeBlocks i) = clearCount (p.bit i) fpBlockCount
  blank : ∀ a, p.get .segmentCount * segmentSize p.segmentShift ≤ a → p.memory a = 0

theorem clearCount_le (bits : Nat → Bool) (size : Nat) : clearCount bits size ≤ size := by
  have hle := Finset.card_filter_le (Finset.range size) fun j => bits j = false
  rwa [Finset.card_range] at hle

theorem Accounted.keep {S : FpField → Prop} {B : Nat → Prop} {p p' : FilePool} (hp : FileOk p)
    (h : Accounted p) (hk : Keeps S B p p') (hB : ∀ i, ¬ B i)
    (hS : ∀ i, i < p.get .segmentCount → ¬ S (.freeBlocks i)) : Accounted p' := by
  refine ⟨?_, ?_⟩
  · intro i hi
    rw [hk.count] at hi
    have hin := hp.inFile hi
    rw [hk.get (f := .freeBlocks i) hin (hS i hi), h.free i hi]
    exact (clearCount_congr fun j hj => hk.bit hin (hB i) hj).symm
  · intro a ha
    rw [hk.count, hk.shift] at ha
    exact (hk.beyond ha).trans (h.blank a ha)

theorem Accounted.keepBlocks {p p' : FilePool} (hp : FileOk p) (h : Accounted p)
    (hk : KeepsBlocks p p') : Accounted p' :=
  h.keep hp hk (fun _ => id) fun _ _ => id

theorem Accounted.taken {p p' : FilePool} {i start n : Nat} (hp : FileOk p) (h : Accounted p)
    (ht : Taken p p' i start n) : Accounted p' := by
  have hk := ht.keeps
  refine ⟨?_, ?_⟩
  · intro a ha
    rw [hk.count] at ha
    by_cases hai : a = i
    · subst hai
      have hbits : clearCount (p'.bit a) fpBlockCount =
          clearCount (writeRange (p.bit a) start n true) fpBlockCount :=
        clearCount_congr fun j hj => ht.bit hj
      have hset := clearCount_set ht.run
      have hle := clearCount_le (p.bit a) fpBlockCount
      have hmax : fpBlockCount < ulongRange := by decide
      rw [hbits, ht.free, h.free a ha]
      have hsub : clearCount (p.bit a) fpBlockCount + ulongRange - n =
          clearCount (writeRange (p.bit a) start n true) fpBlockCount + ulongRange := by omega
      rw [hsub, Nat.add_mod_right, Nat.mod_eq_of_lt (by omega)]
    · have hin := hp.inFile ha
      have hne : ¬ blockFields p.segmentShift i start (.freeBlocks a) := by
        rintro (hf | hf | hf)
        · injection hf with hf
          exact hai hf
        · cases hf
        · cases hf
      rw [hk.get (f := .freeBlocks a) hin hne, h.free a ha]
      exact (clearCount_congr fun j hj => hk.bit hin hai hj).symm
  · intro a ha
    rw [hk.count, hk.shift] at ha
    exact (hk.beyond ha).trans (h.blank a ha)

theorem Accounted.givenBack {p p' : FilePool} {i start n : Nat} (hp : FileOk p)
    (h : Accounted p) (hg : GivenBack p p' i start n) (hsize : start + n ≤ fpBlockCount)
    (hused : ∀ j, start ≤ j → j < start + n → p.bit i j = true) : Accounted p' := by
  have hk := hg.keeps
  refine ⟨?_, ?_⟩
  · intro a ha
    rw [hk.count] at ha
    by_cases hai : a = i
    · subst hai
      have hbits : clearCount (p'.bit a) fpBlockCount =
          clearCount (writeRange (p.bit a) start n false) fpBlockCount :=
        clearCount_congr fun j hj => hg.bit hj
      have hclear := clearCount_clear hsize hused
      have hle := clearCount_le (writeRange (p.bit a) start n false)
        fpBlockCount
      have hmax : fpBlockCount < ulongRange := by decide
      rw [hbits, hg.free, h.free a ha, hclear, Nat.mod_eq_of_lt (by omega)]
    · have hin := hp.inFile ha
      have hne : FpField.freeBlocks a ≠ .freeBlocks i := by
        intro hf
        injection hf with hf
        exact hai hf
      rw [hk.get (f := .freeBlocks a) hin hne, h.free a ha]
      exact (clearCount_congr fun j hj => hk.bit hin hai hj).symm
  · intro a ha
    rw [hk.count, hk.shift] at ha
    exact (hk.beyond ha).trans (h.blank a ha)

theorem refile {env : PoolEnv} {p : FilePool} {lists : Nat → List Nat} {assigned : Nat → Nat}
    {i : Nat} (hmap : ∀ n, env.mapView n = true) (hp : FileOk p) (h : Threaded p lists)
    (hf : Filed p lists assigned) (hi : i < p.get .segmentCount)
    (hlt : assigned i < fpFreeListCount)
    (hother : ∀ a, a < p.get .segmentCount → a ≠ i → listOf p a = assigned a) :
    ∃ lists', Threaded (moveFreeList env p (assigned i) (listOf p i) i) lists' ∧
      Filed (moveFreeList env p (assigned i) (listOf p i) i) lists'
        (listOf (moveFreeList env p (assigned i) (listOf p i) i)) := by
  have hnew : listOf p i < fpFreeListCount := phFppComputeFreeListIndex_lt
  have hkeeps := moveFreeList_keeps env hp hlt hnew hi
  have hlist : ∀ a, a < p.get .segmentCount →
      listOf (moveFreeList env p (assigned i) (listOf p i) i) a = listOf p a := by
    intro a ha
    exact listOf_congr hkeeps.shift (hkeeps.get (hp.inFile ha) id)
  have hmem : i ∈ lists (assigned i) := (hf _ hlt i).mpr ⟨hi, rfl⟩
  suffices hsuff : ∃ lists', Threaded (moveFreeList env p (assigned i) (listOf p i) i) lists' ∧
      ∀ k, k < fpFreeListCount → ∀ a, a ∈ lists' k ↔
        a < p.get .segmentCount ∧ listOf p a = k by
    obtain ⟨lists', ht, hmem'⟩ := hsuff
    refine ⟨lists', ht, fun k hk a => ?_⟩
    rw [hmem' k hk a, hkeeps.count]
    exact and_congr_right fun ha => by rw [hlist a ha]
  unfold moveFreeList
  split
  · next heq =>
      refine ⟨lists, h, fun k hk a => ?_⟩
      rw [hf k hk a]
      refine and_congr_right fun ha => ?_
      by_cases hai : a = i
      · rw [hai, heq]
      · rw [hother a ha hai]
  · next hne =>
      have hr := h.remove hmap hp hlt hmem
      have hk := phFppRemoveFreeList_keeps env (i := i) hp hlt
      generalize (phFppRemoveFreeList env p (assigned i) i).1 = q at hr hk
      generalize hlists : Function.update lists (assigned i) ((lists (assigned i)).erase i) =
        lists₁ at hr
      have hmem₁ : ∀ k, k < fpFreeListCount → ∀ a, a ∈ lists₁ k ↔ a ∈ lists k ∧ a ≠ i := by
        intro k hk' a
        subst hlists
        by_cases hkk : k = assigned i
        · subst hkk
          rw [Function.update_self, (h.nodup _ hlt).mem_erase_iff, and_comm]
        · rw [Function.update_of_ne hkk]
          refine ⟨fun ha => ⟨ha, fun heq => ?_⟩, And.left⟩
          subst heq
          exact hkk ((hf k hk' a).mp ha).2.symm
      have hins := hr.insert hmap (hk.fileOk hp) hnew (hk.count.symm ▸ hi)
        fun k hk' hin => ((hmem₁ k hk' i).mp hin).2 rfl
      refine ⟨_, hins, fun k hk' a => ?_⟩
      rw [mem_update_cons, hmem₁ k hk' a, hf k hk' a]
      by_cases hai : a = i
      · subst hai
        simp [hi, eq_comm]
      · simp only [hai, and_false, false_or, ne_eq, not_false_eq_true, and_true]
        exact and_congr_right fun ha => by rw [hother a ha hai]

/-! ## Walks along the lists -/

/-- What a walk along the segments `l` comes to when every mapping succeeds. -/
def Walked (p : FilePool) (n : Nat) (l : List Nat) : ScanResult → Prop
  | .exhausted => ∀ i ∈ l, ∀ start, ¬ ClearRun (p.bit i) fpBlockCount start n
  | .notMapped => False
  | .allocated i _ => i ∈ l

theorem scanList_walked {env : PoolEnv} {n fuel x : Nat} {p p' : FilePool} {r : ScanResult}
    {l : List Nat} {prior last : Option Nat} (hmap : ∀ n, env.mapView n = true)
    (hp : FileOk p) (hused : ∀ k, k < p.get .segmentCount → HeaderUsed p k)
    (hl : Seg (flinkOf p) (blinkOf p) prior (linkOf x) l last none)
    (hlt : ∀ i ∈ l, i < p.get .segmentCount)
    (h : scanList env n fuel p x = some (p', r)) : Walked p n l r := by
  induction fuel generalizing p x l prior with
  | zero => cases h
  | succ fuel ih =>
      unfold scanList at h
      cases l with
      | nil =>
          have hx : x = SystemInformer.ulongMax := by
            by_contra hne
            have hnone := hl.2
            rw [linkOf_some hne] at hnone
            cases hnone
          rw [if_pos hx] at h
          injection h with h
          injection h with h₁ h₂
          subst h₂
          exact fun i hi => absurd hi List.not_mem_nil
      | cons a l =>
          obtain ⟨rfl, hne⟩ := linkOf_eq_some hl.1
          have hx := hlt x List.mem_cons_self
          have hq : FileOk { p with calls := p.calls + 1 } := hp.calls
          simp only [if_neg hne, phFppReferenceSegment_calm hmap hp hx, Bool.true_eq_false,
            if_false] at h
          rcases phFppAllocateBlocks_spec env (n := n) hq hx (hused x hx) with
            ⟨hnone, hrun⟩ | ⟨q, start, hsome, -⟩
          · rw [hnone] at h
            have hrest := ih hq hused hl.2.2 (fun i hi => hlt i (List.mem_cons_of_mem x hi)) h
            cases r with
            | exhausted =>
                intro i hi
                rcases List.mem_cons.mp hi with rfl | hi
                · exact hrun
                · exact hrest i hi
            | notMapped => exact hrest
            | allocated i start => exact List.mem_cons_of_mem x hrest
          · rw [hsome] at h
            injection h with h
            injection h with h₁ h₂
            subst h₂
            exact List.mem_cons_self

theorem scanList_returns (env : PoolEnv) {n fuel x : Nat} {p : FilePool} {l : List Nat}
    {prior last : Option Nat} (hmap : ∀ n, env.mapView n = true)
    (hp : FileOk p) (hused : ∀ k, k < p.get .segmentCount → HeaderUsed p k)
    (hl : Seg (flinkOf p) (blinkOf p) prior (linkOf x) l last none)
    (hlt : ∀ i ∈ l, i < p.get .segmentCount) (hfuel : l.length < fuel) :
    ∃ r, scanList env n fuel p x = some r := by
  induction fuel generalizing p x l prior with
  | zero => omega
  | succ fuel ih =>
      unfold scanList
      cases l with
      | nil =>
          have hx : x = SystemInformer.ulongMax := by
            by_contra hne
            have hnone := hl.2
            rw [linkOf_some hne] at hnone
            cases hnone
          rw [if_pos hx]
          exact ⟨_, rfl⟩
      | cons a l =>
          obtain ⟨rfl, hne⟩ := linkOf_eq_some hl.1
          have hx := hlt x List.mem_cons_self
          have hq : FileOk { p with calls := p.calls + 1 } := hp.calls
          simp only [if_neg hne, phFppReferenceSegment_calm hmap hp hx, Bool.true_eq_false,
            if_false]
          rcases phFppAllocateBlocks_spec env (n := n) hq hx (hused x hx) with
            ⟨hnone, -⟩ | ⟨q, start, hsome, -⟩
          · rw [hnone]
            exact ih hq hused hl.2.2 (fun i hi => hlt i (List.mem_cons_of_mem x hi))
              (Nat.lt_of_succ_lt_succ hfuel)
          · rw [hsome]
            exact ⟨_, rfl⟩

/-- What a walk along `m` lists from list `k` on comes to; `k'` is the list it ends in. -/
def WalkedLists (p : FilePool) (n : Nat) (lists : Nat → List Nat) (k m k' : Nat) :
    ScanResult → Prop
  | .exhausted => ∀ j, k ≤ j → j < k + m → ∀ i ∈ lists j, ∀ start,
      ¬ ClearRun (p.bit i) fpBlockCount start n
  | .notMapped => False
  | .allocated i _ => i ∈ lists k'

theorem scanLists_walked {env : PoolEnv} {n fuel m k k' : Nat} {p p' : FilePool}
    {r : ScanResult} {lists : Nat → List Nat} (hmap : ∀ n, env.mapView n = true)
    (hp : FileOk p) (hused : ∀ k, k < p.get .segmentCount → HeaderUsed p k)
    (ht : Threaded p lists) (hm : k + m ≤ fpFreeListCount)
    (h : scanLists env n fuel m p k = some (p', k', r)) :
    WalkedLists p n lists k m k' r := by
  induction m generalizing p k with
  | zero =>
      injection h with h
      injection h with h₁ h₂
      injection h₂ with h₂ h₃
      subst h₃
      exact fun j h₁ h₂ => absurd h₂ (by omega)
  | succ m ih =>
      unfold scanLists at h
      have hk : k < fpFreeListCount := by omega
      obtain ⟨last, hl⟩ := ht.list k hk
      split at h
      · cases h
      · next hscan =>
          have hwalk := scanList_walked hmap hp hused hl (ht.segments k hk) hscan
          obtain ⟨c, rfl⟩ := scanList_spec hp hused hscan
          have ht' : Threaded { p with calls := c } lists :=
            ht.congr (Nat.le_refl _) (fun _ _ => rfl) (fun _ _ => rfl) fun _ _ => rfl
          have hrest := ih (hp.calls (c := c)) hused ht' (by omega) h
          cases r with
          | exhausted =>
              intro j h₁ h₂
              by_cases hjk : j = k
              · rw [hjk]
                exact hwalk
              · exact hrest j (by omega) (by omega)
          | notMapped => exact hrest
          | allocated i start => exact hrest
      · next q r' hne hscan =>
          injection h with h
          injection h with h₁ h₂
          injection h₂ with h₂ h₃
          subst h₁ h₂ h₃
          have hwalk := scanList_walked hmap hp hused hl (ht.segments k hk) hscan
          cases r' with
          | exhausted => exact absurd rfl hne
          | notMapped => exact hwalk
          | allocated i start => exact hwalk

theorem scanLists_returns (env : PoolEnv) {n fuel m k : Nat} {p : FilePool}
    {lists : Nat → List Nat} (hmap : ∀ n, env.mapView n = true) (hp : FileOk p)
    (hused : ∀ k, k < p.get .segmentCount → HeaderUsed p k) (ht : Threaded p lists)
    (hm : k + m ≤ fpFreeListCount) (hfuel : p.get .segmentCount < fuel) :
    ∃ r, scanLists env n fuel m p k = some r := by
  induction m generalizing p k with
  | zero => exact ⟨_, rfl⟩
  | succ m ih =>
      have hk : k < fpFreeListCount := by omega
      obtain ⟨last, hl⟩ := ht.list k hk
      have hlen : (lists k).length ≤ p.get .segmentCount := by
        have hsub : lists k ⊆ List.range (p.get .segmentCount) := fun i hi =>
          List.mem_range.mpr (ht.segments k hk i hi)
        have := (ht.nodup k hk).length_le_of_subset hsub
        rwa [List.length_range] at this
      obtain ⟨⟨q, r⟩, hscan⟩ := scanList_returns env (n := n) hmap hp hused hl
        (ht.segments k hk) (Nat.lt_of_le_of_lt hlen hfuel)
      unfold scanLists
      rw [hscan]
      cases r with
      | exhausted =>
          obtain ⟨c, rfl⟩ := scanList_spec hp hused hscan
          have ht' : Threaded { p with calls := c } lists :=
            ht.congr (Nat.le_refl _) (fun _ _ => rfl) (fun _ _ => rfl) fun _ _ => rfl
          exact ih (hp.calls (c := c)) hused ht' (by omega) hfuel
      | notMapped => exact ⟨_, rfl⟩
      | allocated i start => exact ⟨_, rfl⟩

/-! ## Runs in which every mapping succeeds -/

structure PoolSorted (p : FilePool) (live : List FpPointer) : Prop where
  safe : PoolSafe p live
  accounted : Accounted p
  filed : ∃ lists, Threaded p lists ∧ Filed p lists (listOf p)

section Steps

variable {env : PoolEnv} {p p' : FilePool} {live : List FpPointer}

theorem PoolSorted.calls {c : Nat} (h : PoolSorted p live) :
    PoolSorted { p with calls := c } live := by
  obtain ⟨lists, ht, hf⟩ := h.filed
  refine ⟨h.safe.calls, ⟨h.accounted.free, h.accounted.blank⟩, lists, ?_, hf⟩
  exact ht.congr (Nat.le_refl _) (fun _ _ => rfl) (fun _ _ => rfl) fun _ _ => rfl

theorem PoolSorted.allocated {q : FilePool} {i start n : Nat} (hmap : ∀ n, env.mapView n = true)
    (h : PoolSorted p live) (hi : i < p.get .segmentCount) (ht : Taken p q i start n) :
    PoolSorted (blockAllocated env q (listOf p i) i start).1
      ((blockAllocated env q (listOf p i) i start).2.toList ++ live) := by
  have hp := h.safe.fileOk
  have hk := ht.keeps
  have hq := hk.fileOk hp
  obtain ⟨lists, hth, hf⟩ := h.filed
  have hlt : listOf p i < fpFreeListCount := phFppComputeFreeListIndex_lt
  have hi' : i < q.get .segmentCount := hk.count.symm ▸ hi
  have hth' : Threaded q lists := hth.keep hp hk fun f _ hl => by
    rintro (rfl | rfl | rfl) <;> exact hl
  have hf' : Filed q lists (listOf p) := fun k hk' a => by rw [hf k hk' a, hk.count]
  have hother : ∀ a, a < q.get .segmentCount → a ≠ i → listOf q a = listOf p a := by
    intro a ha hai
    refine listOf_congr hk.shift (hk.get (hp.inFile (hk.count ▸ ha)) ?_)
    rintro (hfield | hfield | hfield)
    · injection hfield with hfield
      exact hai hfield
    · cases hfield
    · cases hfield
  refine ⟨h.safe.allocated hlt hi ht, ?_, refile hmap hq hth' hf' hi' hlt hother⟩
  exact (h.accounted.taken hp ht).keepBlocks hq
    (moveFreeList_keeps env hq hlt phFppComputeFreeListIndex_lt hi')

theorem PoolSorted.freed {b : FpPointer} (hmap : ∀ n, env.mapView n = true)
    (h : PoolSorted p live) (hb : b ∈ live) :
    PoolSorted (phpFreeFilePool env p b) (live.erase b) := by
  have hp := h.safe.fileOk
  have hl := h.safe.blocks b hb
  have hg : GivenBack p (phFppFreeBlocks p b.segment (headerOf b)) b.segment (startOf p b)
      (spanOf p b) := phFppFreeBlocks_spec hp hl.segment
  have hk := hg.keeps
  have hq := hk.fileOk hp
  obtain ⟨lists, hth, hf⟩ := h.filed
  have hlt : listOf p b.segment < fpFreeListCount := phFppComputeFreeListIndex_lt
  have hi' := hk.count.symm ▸ hl.segment
  have hth' := hth.keep hp hk fun f _ hl => by
    rintro rfl
    exact hl
  have hf' : Filed (phFppFreeBlocks p b.segment (headerOf b)) lists (listOf p) := fun k hk' a => by
    rw [hf k hk' a, hk.count]
  refine ⟨h.safe.freed hb, ?_, refile hmap hq hth' hf' hi' hlt ?_⟩
  · exact (h.accounted.givenBack hp hg hl.inside hl.used).keepBlocks hq
      (moveFreeList_keeps env hq hlt phFppComputeFreeListIndex_lt hi')
  · intro a ha hai
    refine listOf_congr hk.shift (hk.get (hp.inFile (hk.count ▸ ha)) fun hfield => ?_)
    injection hfield with hfield
    exact hai hfield

theorem FpField.InHeader.addr_ne {f : FpField} {i x : Nat} (hp : FileOk p)
    (hf : f.InHeader (p.get .segmentCount))
    (hlo : headerBlock p.segmentShift i * blockSize p.segmentShift + 336 ≤ x)
    (hhi : x < segmentSize p.segmentShift) :
    f.addr p.segmentShift ≠ i * segmentSize p.segmentShift + x := by
  intro heq
  have hok := hf.ok hp
  have hoff := FpField.offset_lt hp.roomy.sizes hok
  rw [FpField.addr_eq hp.roomy hok] at heq
  obtain ⟨hseg, hoff⟩ := segment_offset_inj (by omega) hhi heq
  subst hseg
  cases f with
  | magic | segmentShift | segmentCount | freeBlocks | freeFlink | freeBlink =>
      simp only [FpField.offset, FpField.segment] at hoff hlo
      omega
  | freeList k =>
      have hk : k < 8 := hf
      simp only [FpField.offset, FpField.segment] at hoff hlo
      omega
  | blockFlags | blockSpan => exact hf

theorem PoolSorted.store {b : FpPointer} {a value : Nat} (h : PoolSorted p live) (hb : b ∈ live)
    (ha : a ∈ bytesOf p b) (hbody : segmentOffset p.segmentShift b.segment + b.offset ≤ a) :
    PoolSorted { p with memory := Function.update p.memory a value } live := by
  have hp := h.safe.fileOk
  have hl := h.safe.blocks b hb
  have hsafe := h.safe.store value hb ha hbody
  obtain ⟨x, rfl, -, -, hlo, hhi⟩ := hl.body hp ha hbody
  have hk := Keeps.store value hp hl.segment hlo hhi
  have hne : ∀ f : FpField, f.InHeader (p.get .segmentCount) → ¬ f.addr p.segmentShift =
      b.segment * segmentSize p.segmentShift + x := fun f hf => hf.addr_ne hp hlo hhi
  obtain ⟨lists, ht, hf⟩ := h.filed
  refine ⟨hsafe, ?_, lists, ?_, ?_⟩
  · exact h.accounted.keep hp hk (fun _ => id) fun i hi => hne (.freeBlocks i) hi
  · exact ht.keep hp hk fun f hf _ => hne f hf
  · intro k hk' i
    rw [hf k hk' i, hk.count]
    refine and_congr_right fun hi => ?_
    have hfree := hk.get (f := .freeBlocks i) (hp.inFile hi) (hne (.freeBlocks i) hi)
    rw [listOf_congr (p := p) hk.shift hfree]

theorem phFppComputeFreeListIndex_fresh {s : Nat} (hs : Sizes s) :
    phFppComputeFreeListIndex s (fpBlockCount - segmentHeaderBlockSpan s) = 0 := by
  have hspan := hs.spanLe
  have hcount : fpBlockCount = 2048 := rfl
  unfold phFppComputeFreeListIndex
  rw [hcount, if_pos (by omega), if_pos (by omega), if_pos (Nat.le_refl _)]

theorem Accounted.bit_blank {i j : Nat} (hs : Roomy p.segmentShift) (h : Accounted p)
    (hi : InFile p.segmentShift i) (hle : p.get .segmentCount ≤ i) : p.bit i j = false := by
  have hmul : p.get .segmentCount * segmentSize p.segmentShift ≤
      i * segmentSize p.segmentShift := Nat.mul_le_mul_right _ hle
  unfold FilePool.bit bitAt
  rw [h.blank, Nat.zero_testBit]
  rw [header_eq hs hi]
  omega

theorem PoolSorted.segmentAdded {e : FilePool} (hmap : ∀ n, env.mapView n = true)
    (h : PoolSorted p live) (he : Extended p e) :
    PoolSorted (phFppInsertFreeList env (phFppInitializeSegment e (p.get .segmentCount) 0) 0
      (p.get .segmentCount)).1 live ∧
    listOf (phFppInsertFreeList env (phFppInitializeSegment e (p.get .segmentCount) 0) 0
      (p.get .segmentCount)).1 (p.get .segmentCount) = 0 := by
  have hp := h.safe.fileOk
  have hlt : p.get .segmentCount < e.get .segmentCount := by
    rw [he.count]
    exact Nat.lt_succ_self _
  have hin : InFile p.segmentShift (p.get .segmentCount) := he.shift ▸ he.fileOk.inFile hlt
  have hi := phFppInitializeSegment_spec 0 he.fileOk hlt
  rw [Nat.add_zero] at hi
  have hsafe := h.safe.segmentAdded he hi
  generalize phFppInitializeSegment e (p.get .segmentCount) 0 = q at *
  have hk := hi.keeps
  have hcount : q.get .segmentCount = p.get .segmentCount + 1 := hk.count.trans he.count
  have hshift : q.segmentShift = p.segmentShift := hk.shift.trans he.shift
  have hspan : segmentHeaderBlockSpan e.segmentShift ≤ fpBlockCount :=
    Nat.le_trans he.fileOk.roomy.sizes.spanLe (by decide)
  -- The fields of the other segments, and of the file header, are as they were.
  have hget : ∀ f : FpField, f.InHeader (p.get .segmentCount) → f ≠ .segmentCount →
      q.get f = p.get f := by
    intro f hf hne
    have hok := hf.ok hp
    refine (hk.get (he.shift.symm ▸ hok) ?_).trans (he.get hok hne)
    rintro (rfl | rfl | rfl | rfl)
    · exact hf
    · exact Nat.lt_irrefl _ hf
    · exact Nat.lt_irrefl _ hf
    · exact Nat.lt_irrefl _ hf
  have hacc : Accounted q := by
    refine ⟨?_, ?_⟩
    · intro i hi'
      by_cases hnew : i = p.get .segmentCount
      · subst hnew
        have hclear : ∀ j, j < fpBlockCount → e.bit (p.get .segmentCount) j = false :=
          fun j hj => (he.bit hin hj).trans
            (h.accounted.bit_blank hp.roomy hin (Nat.le_refl _))
        have hrun : ClearRun (e.bit (p.get .segmentCount)) fpBlockCount 0
            (segmentHeaderBlockSpan e.segmentShift) :=
          ⟨by omega, fun j _ hj => hclear j (by omega)⟩
        have hset := clearCount_set hrun
        have hbits : clearCount (q.bit (p.get .segmentCount)) fpBlockCount =
            clearCount (writeRange (e.bit (p.get .segmentCount)) 0
              (segmentHeaderBlockSpan e.segmentShift) true) fpBlockCount :=
          clearCount_congr fun j hj => hi.bit hj
        rw [clearCount_of_clear hclear] at hset
        rw [hi.free, hbits]
        omega
      · have hold : i < p.get .segmentCount := by omega
        rw [hget (.freeBlocks i) hold nofun, h.accounted.free i hold]
        refine (clearCount_congr fun j hj => ?_).symm
        have hin' := hp.inFile hold
        exact (hk.bit (he.shift.symm ▸ hin') hnew hj).trans (he.bit hin' hj)
    · intro a ha
      rw [hk.count, hk.shift] at ha
      have hle : p.get .segmentCount * segmentSize p.segmentShift ≤ a := by
        rw [he.count, he.shift, Nat.succ_mul] at ha
        omega
      exact (hk.beyond ha).trans ((he.beyond hle).trans (h.accounted.blank a hle))
  obtain ⟨lists, ht, hf⟩ := h.filed
  have ht' : Threaded q lists := by
    refine ht.congr (by omega) (fun k hk' => hget (.freeList k) hk' nofun) ?_ ?_
    · exact fun i hi' => hget (.freeFlink i) hi' nofun
    · exact fun i hi' => hget (.freeBlink i) hi' nofun
  have hlt' : p.get .segmentCount < q.get .segmentCount := by omega
  have hins := ht'.insert hmap hsafe.fileOk (show 0 < fpFreeListCount by decide)
    hlt' fun k hk' hmem => Nat.lt_irrefl _ (ht.segments k hk' _ hmem)
  have hk' := phFppInsertFreeList_keeps env hsafe.fileOk
    (show 0 < fpFreeListCount by decide) hlt'
  have hlist : ∀ i, i < q.get .segmentCount →
      listOf (phFppInsertFreeList env q 0 (p.get .segmentCount)).1 i = listOf q i :=
    fun i hi' => listOf_congr hk'.shift (hk'.get (hsafe.fileOk.inFile hi') id)
  have hfresh : listOf q (p.get .segmentCount) = 0 := by
    unfold listOf
    rw [hi.free, hk.shift]
    exact phFppComputeFreeListIndex_fresh he.fileOk.roomy.sizes
  refine ⟨⟨hsafe.keepBlocks hk', hacc.keepBlocks hsafe.fileOk hk', _, hins, ?_⟩,
    (hlist _ hlt').trans hfresh⟩
  intro k hk'' i
  rw [mem_update_cons, hf k hk'' i, hk'.count]
  by_cases hnew : i = p.get .segmentCount
  · subst hnew
    rw [hlist _ hlt', hfresh]
    simp [hlt', eq_comm]
  · simp only [hnew, and_false, false_or]
    refine ⟨fun ⟨h₁, h₂⟩ => ⟨by omega, ?_⟩, fun ⟨h₁, h₂⟩ => ⟨by omega, ?_⟩⟩
    · rw [hlist i (by omega), listOf_congr hshift (hget (.freeBlocks i) h₁ nofun), h₂]
    · have hold : i < p.get .segmentCount := by omega
      rw [← h₂, hlist i h₁, listOf_congr hshift (hget (.freeBlocks i) hold nofun)]

theorem PoolSorted.created {s : Nat} (h : HeaderSet s p) :
    PoolSorted (initializeFirstSegment p) [] := by
  have hp := h.fileOk
  have hsizes := hp.roomy.sizes
  have hspan := hsizes.spanLe
  have hpos := hsizes.spanPos
  have hfile := hsizes.fileSpan
  have hzero : BlockOffset p.segmentShift 0 0 := ⟨0, by simp, by decide, Or.inl rfl⟩
  let q₁ := p.set (.blockSpan 0 0) (fileHeaderBlockSpan p.segmentShift)
  let q₂ := phFppInitializeSegment q₁ 0 (fileHeaderBlockSpan p.segmentShift)
  have h₁ : Keeps (· = .blockSpan 0 0) (fun _ => False) p q₁ :=
    Keeps.set hp ⟨hp.inFile hp.pos, hzero⟩ hp.pos nofun rfl
  have h₂ : Initialized q₁ q₂ 0 (segmentHeaderBlockSpan p.segmentShift + 1) := by
    rw [← hfile]
    exact phFppInitializeSegment_spec _ (h₁.fileOk hp) (h₁.fileOk hp).pos
  have hk := h₂.keeps
  have hq₂ : FileOk q₂ := hk.fileOk (h₁.fileOk hp)
  have h₃ : KeepsBlocks q₂ (initializeFirstSegment p) := KeepsBlocks.freeList hq₂ (by decide)
  have hcount₂ : q₂.get .segmentCount = 1 := hk.count.trans (h₁.count.trans h.count)
  have hcount : (initializeFirstSegment p).get .segmentCount = 1 := h₃.count.trans hcount₂
  have hin : InFile p.segmentShift 0 := hp.inFile hp.pos
  have hclear : ∀ j, j < fpBlockCount → q₁.bit 0 j = false := fun j hj =>
    (h₁.bit hin id hj).trans (h.bit (h.shift ▸ hin))
  have hacc : Accounted q₂ := by
    refine ⟨?_, ?_⟩
    · intro i hi
      obtain rfl : i = 0 := by omega
      have hrun : ClearRun (q₁.bit 0) fpBlockCount 0
          (segmentHeaderBlockSpan p.segmentShift + 1) :=
        ⟨Nat.le_trans (show _ ≤ 4 by omega) (by decide),
          fun j _ hj => hclear j (Nat.lt_of_lt_of_le hj (Nat.le_trans (show _ ≤ 4 by omega)
            (by decide)))⟩
      have hset := clearCount_set hrun
      have hbits : clearCount (q₂.bit 0) fpBlockCount = clearCount (writeRange (q₁.bit 0) 0
          (segmentHeaderBlockSpan p.segmentShift + 1) true) fpBlockCount :=
        clearCount_congr fun j hj => h₂.bit hj
      rw [clearCount_of_clear hclear] at hset
      rw [h₂.free, hbits]
      omega
    · intro a ha
      have hseg := hsizes.segment
      have hblock := hsizes.block
      rw [hcount₂, Nat.one_mul] at ha
      have hshift : q₂.segmentShift = p.segmentShift := rfl
      rw [hshift] at ha
      have ha₁ : q₁.get .segmentCount * segmentSize q₁.segmentShift ≤ a := by
        rw [h₁.count, h.count, Nat.one_mul]
        exact ha
      have ha₀ : p.get .segmentCount * segmentSize p.segmentShift ≤ a := by
        rw [h.count, Nat.one_mul]
        exact ha
      exact (hk.beyond ha₁).trans ((h₁.beyond ha₀).trans (h.zero a (by omega)))
  -- The words of the lists: the first segment is the second list, and the others are empty.
  have hlists : ∀ k, k < fpFreeListCount → (initializeFirstSegment p).get (.freeList k) =
      if k = 1 then 0 else SystemInformer.ulongMax := by
    intro k hk'
    have hset : (initializeFirstSegment p).get (.freeList k) =
        if FpField.freeList k = .freeList 1 then 0 else q₂.get (.freeList k) :=
      FilePool.get_set (p := q₂) hq₂.roomy (show 1 < fpFreeListCount by decide) hk'
    have hq : q₂.get (.freeList k) = SystemInformer.ulongMax :=
      (hk.get (f := .freeList k) hk' nofun).trans
        ((h₁.get (f := .freeList k) hk' nofun).trans (h.lists k hk'))
    rw [hset, hq]
    simp
  have hflink : (initializeFirstSegment p).get (.freeFlink 0) = SystemInformer.ulongMax :=
    (FilePool.get_set_ne (f := .freeList 1) (g := .freeFlink 0) hq₂.roomy
      (show 1 < fpFreeListCount by decide) hin nofun).trans h₂.flink
  have hblink : (initializeFirstSegment p).get (.freeBlink 0) = SystemInformer.ulongMax :=
    (FilePool.get_set_ne (f := .freeList 1) (g := .freeBlink 0) hq₂.roomy
      (show 1 < fpFreeListCount by decide) hin nofun).trans h₂.blink
  have hlist : listOf (initializeFirstSegment p) 0 = 1 := by
    have hfree : (initializeFirstSegment p).get (.freeBlocks 0) = fpBlockCount -
        (segmentHeaderBlockSpan p.segmentShift + 1) := (h₃.get (f := .freeBlocks 0) hin id).trans h₂.free
    have hc : fpBlockCount = 2048 := rfl
    have hshift : (initializeFirstSegment p).segmentShift = p.segmentShift := rfl
    unfold listOf phFppComputeFreeListIndex
    rw [hfree, hshift, hc, if_pos (by omega), if_pos (by omega), if_neg (by omega)]
  have hnone : linkOf SystemInformer.ulongMax = none := if_pos rfl
  refine ⟨PoolSafe.created h, hacc.keepBlocks hq₂ h₃, fun k => if k = 1 then [0] else [],
    ⟨?_, ?_, ?_, ?_⟩, ?_⟩
  · intro k hk'
    rw [hlists k hk']
    by_cases hk1 : k = 1
    · rw [if_pos hk1, if_pos hk1]
      refine ⟨some 0, rfl, ?_, rfl, ?_⟩
      · unfold blinkOf
        rw [hblink, hnone]
      · unfold flinkOf
        rw [hflink, hnone]
    · rw [if_neg hk1, if_neg hk1, hnone]
      exact isList_nil
  · intro k hk'
    split
    · exact List.nodup_singleton 0
    · exact List.nodup_nil
  · intro k hk' i hi
    split at hi
    · rw [List.mem_singleton.mp hi, hcount]
      decide
    · exact absurd hi List.not_mem_nil
  · intro k hk' k' hk'' i hi hi'
    split at hi
    · next h₁ =>
        split at hi'
        · next h₂ => rw [h₁, h₂]
        · exact absurd hi' List.not_mem_nil
    · exact absurd hi List.not_mem_nil
  · intro k hk' i
    dsimp only
    rw [hcount]
    split
    · next hk1 =>
        subst hk1
        rw [List.mem_singleton]
        refine ⟨fun hi => ?_, fun hi => by omega⟩
        subst hi
        exact ⟨by decide, hlist⟩
    · next hk1 =>
        refine ⟨fun hi => absurd hi List.not_mem_nil, fun ⟨hi, heq⟩ => ?_⟩
        obtain rfl : i = 0 := by omega
        exact absurd (heq.symm.trans hlist) hk1

theorem PoolSorted.allocate {fuel n : Nat} {r : Option FpPointer}
    (hmap : ∀ n, env.mapView n = true) (h : PoolSorted p live)
    (ha : Allocation env fuel p n p' r) : PoolSorted p' (r.toList ++ live) := by
  have hlimit := phFppComputeFreeListIndex_lt (s := p.segmentShift) (n := n)
  have hp := h.safe.fileOk
  have hused := h.safe.headers
  obtain ⟨lists, ht, hf⟩ := h.filed
  have hwalk : ∀ {q k sr}, scanLists env n fuel
      (phFppComputeFreeListIndex p.segmentShift n + 1) p 0 = some (q, k, sr) →
      WalkedLists p n lists 0 (phFppComputeFreeListIndex p.segmentShift n + 1) k sr :=
    fun hscan => scanLists_walked hmap hp hused ht (by omega) hscan
  -- The state after a segment was added.
  have hgrown : ∀ {q k q' i}, scanLists env n fuel
      (phFppComputeFreeListIndex p.segmentShift n + 1) p 0 = some (q, k, .exhausted) →
      phFppAllocateSegment env q = some (q', some i) →
      PoolSorted q' live ∧ i < q'.get .segmentCount ∧ listOf q' i = 0 := by
    intro q k q' i hscan hseg
    obtain ⟨hsafe, hi⟩ := h.safe.newSegment hscan hseg
    obtain ⟨⟨c, rfl⟩, -⟩ := scanLists_spec hp hused hscan
    rcases phFppAllocateSegment_cases env (hp.calls (c := c)) with
      hcase | ⟨d, hcase⟩ | ⟨e, he, hcase⟩
    · rw [hcase] at hseg
      cases hseg
    · rw [hcase] at hseg
      cases hseg
    · rw [hcase] at hseg
      injection hseg with hseg
      injection hseg with h₁ h₂
      injection h₂ with h₂
      subst h₁ h₂
      obtain ⟨hsorted, hlist⟩ := (h.calls (c := c)).segmentAdded hmap he
      exact ⟨hsorted, hi, hlist⟩
  cases ha with
  | tooLarge hlarge => exact h
  | notMapped hscan => exact (hwalk hscan).elim
  | found hscan =>
      obtain ⟨⟨hi, c, htaken⟩, hk⟩ := scanLists_spec hp hused hscan
      have hmem := hwalk hscan
      have hk' := hk nofun
      rw [← ((hf _ (by omega) _).mp hmem).2]
      exact PoolSorted.allocated (p := { p with calls := c }) hmap h.calls hi htaken
  | notExtended hscan hseg =>
      obtain ⟨⟨c, rfl⟩, -⟩ := scanLists_spec hp hused hscan
      rcases phFppAllocateSegment_cases env (hp.calls (c := c)) with
        hcase | ⟨d, hcase⟩ | ⟨e, -, hcase⟩
      · rw [hcase] at hseg
        cases hseg
      · rw [hcase] at hseg
        injection hseg with hseg
        injection hseg with hseg
        subst hseg
        exact h.calls
      · rw [hcase] at hseg
        cases hseg
  | noRoom hscan hseg hblocks =>
      obtain ⟨hq, hi, -⟩ := hgrown hscan hseg
      rcases phFppAllocateBlocks_spec env (n := n) hq.safe.fileOk hi
        (hq.safe.headers _ hi) with ⟨hnone, -⟩ | ⟨q, start, hsome, -⟩
      · rw [hnone] at hblocks
        injection hblocks with hblocks
        subst hblocks
        exact hq
      · rw [hsome] at hblocks
        cases hblocks
  | fresh hscan hseg hblocks =>
      obtain ⟨hq, hi, hlist⟩ := hgrown hscan hseg
      rcases phFppAllocateBlocks_spec env (n := n) hq.safe.fileOk hi
        (hq.safe.headers _ hi) with ⟨hnone, -⟩ | ⟨q, start, hsome, htaken⟩
      · rw [hnone] at hblocks
        cases hblocks
      · rw [hsome] at hblocks
        injection hblocks with h₁ h₂
        injection h₂ with h₂
        subst h₁ h₂
        rw [← hlist]
        exact hq.allocated hmap hi htaken

/-! ## When a segment is added -/

theorem phFppComputeFreeListIndex_anti {s a b : Nat} (h : a ≤ b) :
    phFppComputeFreeListIndex s b ≤ phFppComputeFreeListIndex s a := by
  have hc : fpBlockCount = 2048 := rfl
  unfold phFppComputeFreeListIndex
  simp only [hc]
  repeat' split
  all_goals omega

theorem PoolSorted.exhausted {fuel n k : Nat} {q : FilePool} (hmap : ∀ n, env.mapView n = true)
    (h : PoolSorted p live)
    (hscan : scanLists env n fuel (phFppComputeFreeListIndex p.segmentShift n + 1) p 0 =
      some (q, k, .exhausted)) {i : Nat} (hi : i < p.get .segmentCount) (start : Nat) :
    ¬ ClearRun (p.bit i) fpBlockCount start n := by
  have hlimit := phFppComputeFreeListIndex_lt (s := p.segmentShift) (n := n)
  obtain ⟨lists, ht, hf⟩ := h.filed
  have hwalk := scanLists_walked hmap h.safe.fileOk h.safe.headers ht (by omega) hscan
  have hlt : listOf p i < fpFreeListCount := phFppComputeFreeListIndex_lt
  by_cases hle : listOf p i ≤ phFppComputeFreeListIndex p.segmentShift n
  · exact hwalk (listOf p i) (Nat.zero_le _) (by omega) i ((hf _ hlt i).mpr ⟨hi, rfl⟩) start
  · intro hrun
    have hcount := hrun.le_clearCount
    rw [← h.accounted.free i hi] at hcount
    exact hle (phFppComputeFreeListIndex_anti hcount)

theorem PoolSorted.noRun {fuel n : Nat} {r : Option FpPointer}
    (hmap : ∀ n, env.mapView n = true) (h : PoolSorted p live)
    (ha : Allocation env fuel p n p' r)
    (hext : p'.get .segmentCount ≠ p.get .segmentCount ∨ p'.sectionSize ≠ p.sectionSize)
    {i : Nat} (hi : i < p.get .segmentCount) (start : Nat) :
    ¬ ClearRun (p.bit i) fpBlockCount start n := by
  have hp := h.safe.fileOk
  have hlimit := phFppComputeFreeListIndex_lt (s := p.segmentShift) (n := n)
  cases ha with
  | tooLarge hlarge => exact absurd rfl (hext.resolve_left fun hne => hne rfl)
  | notMapped hscan =>
      obtain ⟨⟨c, rfl⟩, -⟩ := scanLists_spec hp h.safe.headers hscan
      exact absurd rfl (hext.resolve_left fun hne => hne rfl)
  | @found q k a start' hscan =>
      obtain ⟨⟨hi', c, htaken⟩, hk⟩ := scanLists_spec hp h.safe.headers hscan
      have hk' := hk nofun
      have htk := htaken.keeps
      have hmove : KeepsBlocks q (blockAllocated env q k a start').1 :=
        moveFreeList_keeps env (htk.fileOk hp.calls) (Nat.lt_of_lt_of_le hk' (by omega))
          phFppComputeFreeListIndex_lt (htk.count.symm ▸ hi')
      rcases hext with hne | hne
      · exact absurd (hmove.count.trans htk.count) hne
      · exact absurd (hmove.size.trans htk.size) hne
  | notExtended hscan _ => exact h.exhausted hmap hscan hi start
  | noRoom hscan _ _ => exact h.exhausted hmap hscan hi start
  | fresh hscan _ _ => exact h.exhausted hmap hscan hi start

theorem phFppAllocateSegment_returns (hmap : ∀ n, env.mapView n = true) (hp : FileOk p)
    (hroom : (p.get .segmentCount + 1) * segmentSize p.segmentShift < ulongRange) :
    ∃ r, phFppAllocateSegment env p = some r := by
  have hsize : 0 < segmentSize p.segmentShift := Nat.two_pow_pos _
  have hcount : p.get .segmentCount + 1 < ulongRange := by
    have : (p.get .segmentCount + 1) * 1 ≤
        (p.get .segmentCount + 1) * segmentSize p.segmentShift := Nat.mul_le_mul_left _ hsize
    omega
  have hnew : (p.get .segmentCount + 1) % ulongRange * segmentSize p.segmentShift % ulongRange =
      (p.get .segmentCount + 1) * segmentSize p.segmentShift := by
    rw [Nat.mod_eq_of_lt hcount, Nat.mod_eq_of_lt hroom]
  unfold phFppAllocateSegment phFppExtendRange
  simp only [hnew]
  split
  · -- The extended section holds the new segment, which can then be mapped.
    let q₁ : FilePool := { p with
      calls := p.calls + 1
      sectionSize := max p.sectionSize
        ((p.get .segmentCount + 1) * segmentSize p.segmentShift) }
    let q₂ := q₁.set .segmentCount (p.get .segmentCount + 1)
    have hcount₂ : q₂.get .segmentCount = p.get .segmentCount + 1 := FilePool.get_set_self
    have hq₂ : FileOk q₂ := by
      refine ⟨hp.roomy, by omega, ?_, max_lt hp.bound hroom⟩
      rw [hcount₂]
      exact le_max_right _ _
    have hget : q₁.get .segmentCount = p.get .segmentCount := rfl
    simp only [Bool.true_eq_false, if_false]
    rw [hget, Nat.mod_eq_of_lt hcount,
      phFppReferenceSegment_calm hmap hq₂ (by rw [hcount₂]; exact Nat.lt_succ_self _)]
    exact ⟨_, rfl⟩
  · exact ⟨_, rfl⟩

theorem PoolSorted.returns {fuel : Nat} {size : UInt32} (hmap : ∀ n, env.mapView n = true)
    (h : PoolSorted p live) (hfuel : p.get .segmentCount < fuel)
    (hroom : (p.get .segmentCount + 1) * segmentSize p.segmentShift < ulongRange) :
    ∃ r, phAllocateFilePool env fuel p size = some r := by
  have hp := h.safe.fileOk
  have hlimit := phFppComputeFreeListIndex_lt (s := p.segmentShift)
    (n := numberOfBlocksFor p.segmentShift size)
  obtain ⟨lists, ht, -⟩ := h.filed
  unfold phAllocateFilePool
  simp only
  split
  · exact ⟨_, rfl⟩
  · obtain ⟨⟨q, k, sr⟩, hscan⟩ := scanLists_returns env
      (n := numberOfBlocksFor p.segmentShift size) (k := 0)
      (m := phFppComputeFreeListIndex p.segmentShift (numberOfBlocksFor p.segmentShift size) + 1)
      hmap hp h.safe.headers ht (by omega) hfuel
    rw [hscan]
    cases sr with
    | notMapped => exact ⟨_, rfl⟩
    | allocated i start => exact ⟨_, rfl⟩
    | exhausted =>
        obtain ⟨⟨c, rfl⟩, -⟩ := scanLists_spec hp h.safe.headers hscan
        obtain ⟨⟨q', i⟩, hseg⟩ := phFppAllocateSegment_returns hmap (hp.calls (c := c)) hroom
        simp only [hseg]
        cases i with
        | none => exact ⟨_, rfl⟩
        | some i =>
            simp only
            split
            · exact ⟨_, rfl⟩
            · exact ⟨_, rfl⟩

end Steps

theorem PoolRun.sorted {env : PoolEnv} {segmentShift : Nat} {p : FilePool}
    {live : List FpPointer} (hmap : ∀ n, env.mapView n = true) (hshift : 18 ≤ segmentShift)
    (h : PoolRun env segmentShift p live) : PoolSorted p live := by
  induction h with
  | create hcreate =>
      obtain ⟨q, hq, rfl⟩ := phCreateFilePool_cases hshift hcreate
      exact PoolSorted.created hq
  | allocate _ halloc ih => exact ih.allocate hmap (phAllocateFilePool_cases halloc)
  | store _ hb ha hbody ih => exact ih.store hb ha hbody
  | free _ hb ih => exact ih.freed hmap hb
  | @freeByRva p live b p' freed _ hb hf ih =>
      have hl := ih.safe.blocks b hb
      unfold phFreeFilePoolByRva at hf
      rw [hl.decode ih.safe.fileOk] at hf
      simp only [phFppReferenceSegment_calm hmap ih.safe.fileOk hl.segment, Bool.true_eq_false,
        if_false] at hf
      injection hf with h₁ h₂
      subst h₁ h₂
      exact ih.calls.freed hmap hb

theorem filePool_lists_sorted {env : PoolEnv} {p : FilePool} {live : List FpPointer}
    (hmap : ∀ n, env.mapView n = true) (h : PoolRun env phpDefaultSegmentShift p live) :
    (∀ i, i < p.get .segmentCount →
      p.get (.freeBlocks i) = clearCount (p.bit i) fpBlockCount) ∧
    (∃ lists, Threaded p lists ∧ Filed p lists (listOf p)) ∧
    (∀ fuel size p' r, phAllocateFilePool env fuel p size = some (p', r) →
      p'.get .segmentCount ≠ p.get .segmentCount ∨ p'.sectionSize ≠ p.sectionSize →
      ∀ i, i < p.get .segmentCount → ∀ start, ¬ ClearRun (p.bit i) fpBlockCount start
        (numberOfBlocksFor p.segmentShift size)) ∧
    (∀ fuel size, p.get .segmentCount < fuel →
      (p.get .segmentCount + 1) * segmentSize p.segmentShift < ulongRange →
      ∃ r, phAllocateFilePool env fuel p size = some r) := by
  have hs := h.sorted hmap (Nat.le_refl 18)
  refine ⟨hs.accounted.free, hs.filed, ?_, ?_⟩
  · intro fuel size p' r halloc hext i hi start
    exact hs.noRun hmap (phAllocateFilePool_cases halloc) hext hi start
  · intro fuel size hfuel hroom
    exact hs.returns hmap hfuel hroom

/-- A new pool with one block of 100 bytes in it. -/
theorem filePool_lists_sorted_one : ∃ p, PoolRun calmEnv phpDefaultSegmentShift p [⟨0, 528⟩] ∧
    (∃ lists, Threaded p lists ∧ Filed p lists (listOf p)) := by
  have heval : ((phCreateFilePool calmEnv phpDefaultSegmentShift).bind fun p =>
      (phAllocateFilePool calmEnv 4 p 100).map fun r => r.2) = some (some ⟨0, 528⟩) := by
    decide +kernel
  obtain ⟨p, hcreate, hsome⟩ := Option.bind_eq_some_iff.mp heval
  obtain ⟨⟨p', r⟩, halloc, rfl⟩ := Option.map_eq_some_iff.mp hsome
  have hrun : PoolRun calmEnv phpDefaultSegmentShift p' [⟨0, 528⟩] :=
    .allocate (.create hcreate) halloc
  exact ⟨p', hrun, (filePool_lists_sorted (fun _ => rfl) hrun).2.1⟩

end SystemInformer.PhLib
