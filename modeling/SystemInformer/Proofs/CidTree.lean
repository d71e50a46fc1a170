import SystemInformer.Driver.CidTable
import SystemInformer.Lib.TaggedWord

/-!
# The tree of a CID table

Whatever its level, a table maps the number of a page of 512 ids to at most one level zero
block, `leaf`, and the number of a group of 512 pages to at most one level one block,
`mid`. A new root above the old one changes neither, and the other two kinds of stores add
one block to one of them; a block in the tree has one parent, so a store changes nothing
else. The blocks are apart from each other, so the address of an entry determines the
block and the place in it.
-/

namespace SystemInformer.Driver

open TaggedWord

/-! ## The word of the root -/

theorem cidPointer_of_aligned {block : ULongPtr} (h : block &&& cidTableLevelMask = 0) :
    cidPointer block = block := by
  refine BitVec.eq_of_toNat_eq ?_
  have hsum := toNat_and_add block cidTableLevelMask
  rw [h] at hsum
  exact hsum

theorem cidLevel_or {block level : ULongPtr} (h : block &&& cidTableLevelMask = 0)
    (hlevel : level = cidTableL1 ∨ level = cidTableL2) : cidLevel (block ||| level) = level := by
  have hself : level &&& cidTableLevelMask = level := by
    rcases hlevel with rfl | rfl
    · rfl
    · rfl
  rw [cidLevel, BitVec.and_comm, BitVec.and_or_distrib_left, BitVec.and_comm _ block, h,
    BitVec.and_comm _ level, hself]
  exact BitVec.zero_or

theorem cidPointer_or {block level : ULongPtr} (h : block &&& cidTableLevelMask = 0)
    (hlevel : level = cidTableL1 ∨ level = cidTableL2) : cidPointer (block ||| level) = block := by
  have hnone : level &&& ~~~cidTableLevelMask = 0 := by
    rcases hlevel with rfl | rfl
    · rfl
    · rfl
  have hblock := cidPointer_of_aligned h
  rw [cidPointer] at hblock
  rw [cidPointer, BitVec.and_comm, BitVec.and_or_distrib_left, BitVec.and_comm _ block, hblock,
    BitVec.and_comm _ level, hnone]
  exact BitVec.or_zero

/-! ## What a table maps -/

def CidMem.level (m : CidMem) : ULongPtr := cidLevel m.table

def CidMem.root (m : CidMem) : ULongPtr := cidPointer m.table

def notNull (block : ULongPtr) : Option ULongPtr := if block = 0 then none else some block

theorem notNull_eq_some {block b : ULongPtr} : notNull block = some b ↔ block = b ∧ b ≠ 0 := by
  unfold notNull
  split
  · next h =>
      constructor
      · intro hno
        cases hno
      · rintro ⟨rfl, hne⟩
        exact absurd h hne
  · next h =>
      constructor
      · rintro ⟨rfl⟩
        exact ⟨rfl, h⟩
      · rintro ⟨rfl, -⟩
        rfl

theorem notNull_eq_none {block : ULongPtr} : notNull block = none ↔ block = 0 := by
  unfold notNull
  split
  · next h => exact ⟨fun _ => h, fun _ => rfl⟩
  · next h => exact ⟨fun hno => (by cases hno), fun hyes => absurd hyes h⟩

def CidMem.mid (m : CidMem) (i : Nat) : Option ULongPtr :=
  if m.level = cidTableL1 then if i = 0 then some m.root else none
  else if m.level = cidTableL2 then notNull (m.slot m.root i)
  else none

def CidMem.leaf (m : CidMem) (k : Nat) : Option ULongPtr :=
  if m.level = cidTableL0 then if k = 0 then some m.root else none
  else (m.mid (k / 512)).bind fun b => notNull (m.slot b (k % 512))

def CidMem.resolve (m : CidMem) (id : Nat) : Option Nat :=
  if id < cidMax then (m.leaf (id / 512)).map fun b => cidEntry b (id % 512) else none

def Apart (x y : ULongPtr × ULongPtr) : Prop :=
  x.1.toNat + cidBlockSize x.2 ≤ y.1.toNat ∨ y.1.toNat + cidBlockSize y.2 ≤ x.1.toNat

instance : Std.Symm Apart := ⟨fun _ _ h => h.symm⟩

theorem cidBlockSize_pos (level : ULongPtr) : 0 < cidBlockSize level := by
  unfold cidBlockSize
  split
  · decide
  · decide

/-- A slot of a block of the first level refers to one of the second. -/
def LevelAbove (level level' : ULongPtr) : Prop :=
  (level = cidTableL1 ∧ level' = cidTableL0) ∨ (level = cidTableL2 ∧ level' = cidTableL1)

structure CidShape (m : CidMem) : Prop where
  levels : m.level = cidTableL0 ∨ m.level = cidTableL1 ∨ m.level = cidTableL2
  root : (m.root, m.level) ∈ m.allocated
  blocks : ∀ x ∈ m.allocated, x.1 ≠ 0 ∧ x.1 &&& cidTableLevelMask = 0
  apart : m.allocated.Pairwise Apart
  children : ∀ b i, m.slot b i ≠ 0 → ∃ level level', LevelAbove level level' ∧
    (b, level) ∈ m.allocated ∧ (m.slot b i, level') ∈ m.allocated
  unique : ∀ b i b' i', m.slot b i = m.slot b' i' → m.slot b i ≠ 0 → b = b' ∧ i = i'

/-- The root is in no slot: no new root is half put in place. -/
def CidMem.Quiet (m : CidMem) : Prop := ∀ b i, m.slot b i ≠ m.root

/-- A block that is in the table's memory, but not in the tree yet. -/
structure CidMem.Spare (m : CidMem) (level block : ULongPtr) : Prop where
  mem : (block, level) ∈ m.allocated
  empty : ∀ i, m.slot block i = 0
  orphan : ∀ b i, m.slot b i ≠ block
  notRoot : block ≠ m.root

section

variable {m : CidMem}

theorem CidShape.apart_of_ne (h : CidShape m) {x y : ULongPtr × ULongPtr} (hx : x ∈ m.allocated)
    (hy : y ∈ m.allocated) (hne : x ≠ y) : Apart x y :=
  h.apart.forall hx hy hne

theorem CidShape.eq_of_address (h : CidShape m) {x y : ULongPtr × ULongPtr}
    (hx : x ∈ m.allocated) (hy : y ∈ m.allocated) (heq : x.1 = y.1) : x = y := by
  by_contra hne
  have hapart := h.apart_of_ne hx hy hne
  have := cidBlockSize_pos x.2
  have := cidBlockSize_pos y.2
  rw [Apart, heq] at hapart
  omega

theorem mid_of_level_one (h : m.level = cidTableL1) (i : Nat) :
    m.mid i = if i = 0 then some m.root else none := by
  rw [CidMem.mid, if_pos h]

theorem mid_of_level_two (h : m.level = cidTableL2) (i : Nat) :
    m.mid i = notNull (m.slot m.root i) := by
  rw [CidMem.mid, if_neg (by rw [h]; decide), if_pos h]

theorem leaf_of_level_zero (h : m.level = cidTableL0) (k : Nat) :
    m.leaf k = if k = 0 then some m.root else none := by
  rw [CidMem.leaf, if_pos h]

theorem leaf_of_level (h : m.level ≠ cidTableL0) (k : Nat) :
    m.leaf k = (m.mid (k / 512)).bind fun b => notNull (m.slot b (k % 512)) := by
  rw [CidMem.leaf, if_neg h]

variable {i : Nat} {b : ULongPtr}

theorem CidShape.mid_spec (h : CidShape m) (hmid : m.mid i = some b) :
    (b, cidTableL1) ∈ m.allocated ∧
      ((m.level = cidTableL1 ∧ i = 0 ∧ b = m.root) ∨ (m.level = cidTableL2 ∧ m.slot m.root i = b)) := by
  rcases h.levels with hl | hl | hl
  · rw [CidMem.mid, if_neg (by rw [hl]; decide), if_neg (by rw [hl]; decide)] at hmid
    cases hmid
  · rw [mid_of_level_one hl] at hmid
    split at hmid
    · next hi =>
        obtain rfl := Option.some.inj hmid
        exact ⟨hl ▸ h.root, .inl ⟨hl, hi, rfl⟩⟩
    · cases hmid
  · rw [mid_of_level_two hl, notNull_eq_some] at hmid
    obtain ⟨hslot, hne⟩ := hmid
    refine ⟨?_, .inr ⟨hl, hslot⟩⟩
    obtain ⟨level, level', habove, hb, hchild⟩ := h.children m.root i (by rwa [hslot])
    have hlevel := h.eq_of_address hb h.root rfl
    rcases habove with ⟨hone, -⟩ | ⟨-, rfl⟩
    · have := (Prod.mk.inj hlevel).2
      rw [hone, hl] at this
      exact absurd this (by decide)
    · exact hslot ▸ hchild

theorem CidShape.leaf_mem (h : CidShape m) {k : Nat} (hleaf : m.leaf k = some b) :
    (b, cidTableL0) ∈ m.allocated := by
  by_cases hl : m.level = cidTableL0
  · rw [leaf_of_level_zero hl] at hleaf
    split at hleaf
    · obtain rfl := Option.some.inj hleaf
      exact hl ▸ h.root
    · cases hleaf
  · rw [leaf_of_level hl] at hleaf
    obtain ⟨b₁, hmid, hslot⟩ := Option.bind_eq_some_iff.mp hleaf
    obtain ⟨rfl, hne⟩ := notNull_eq_some.mp hslot
    obtain ⟨hmem, -⟩ := h.mid_spec hmid
    obtain ⟨level, level', habove, hb, hchild⟩ := h.children b₁ (k % 512) hne
    have hlevel := (Prod.mk.inj (h.eq_of_address hb hmem rfl)).2
    rcases habove with ⟨-, rfl⟩ | ⟨htwo, -⟩
    · exact hchild
    · rw [htwo] at hlevel
      exact absurd hlevel (by decide)

theorem CidShape.mid_injective (h : CidShape m) {i i' : Nat}
    (hi : m.mid i = some b) (hi' : m.mid i' = some b) : i = i' := by
  obtain ⟨hmem, hcase⟩ := h.mid_spec hi
  obtain ⟨-, hcase'⟩ := h.mid_spec hi'
  rcases hcase with ⟨hl, rfl, -⟩ | ⟨hl, hslot⟩
  · rcases hcase' with ⟨-, rfl, -⟩ | ⟨hl', -⟩
    · rfl
    · exact absurd (hl.symm.trans hl') (by decide)
  · rcases hcase' with ⟨hl', -, -⟩ | ⟨-, hslot'⟩
    · exact absurd (hl.symm.trans hl') (by decide)
    · exact (h.unique m.root i m.root i' (hslot.trans hslot'.symm)
        (hslot ▸ (h.blocks _ hmem).1)).2

theorem CidShape.leaf_injective (h : CidShape m) {k k' : Nat}
    (hk : m.leaf k = some b) (hk' : m.leaf k' = some b) : k = k' := by
  by_cases hl : m.level = cidTableL0
  · rw [leaf_of_level_zero hl] at hk hk'
    split at hk
    · split at hk'
      · omega
      · cases hk'
    · cases hk
  · rw [leaf_of_level hl] at hk hk'
    obtain ⟨b₁, hmid, hslot⟩ := Option.bind_eq_some_iff.mp hk
    obtain ⟨b₁', hmid', hslot'⟩ := Option.bind_eq_some_iff.mp hk'
    rw [notNull_eq_some] at hslot hslot'
    obtain ⟨rfl, hrest⟩ := h.unique b₁ (k % 512) b₁' (k' % 512) (hslot.1.trans hslot'.1.symm)
      (hslot.1 ▸ hslot.2)
    have := h.mid_injective hmid hmid'
    omega

theorem CidShape.resolve_injective (h : CidShape m) {id id' e : Nat}
    (hid : m.resolve id = some e) (hid' : m.resolve id' = some e) : id = id' := by
  unfold CidMem.resolve at hid hid'
  split at hid
  · split at hid'
    · obtain ⟨b, hleaf, he⟩ := Option.map_eq_some_iff.mp hid
      obtain ⟨b', hleaf', he'⟩ := Option.map_eq_some_iff.mp hid'
      have hbase : (b, cidTableL0) = (b', cidTableL0) := by
        by_contra hne
        have hapart := h.apart_of_ne (h.leaf_mem hleaf) (h.leaf_mem hleaf') hne
        have hsize : cidBlockSize cidTableL0 = 4096 := rfl
        rw [Apart] at hapart
        simp only [hsize] at hapart
        rw [cidEntry] at he he'
        omega
      obtain ⟨rfl, -⟩ := Prod.mk.inj hbase
      have := h.leaf_injective hleaf hleaf'
      rw [cidEntry] at he he'
      omega
    · cases hid'
  · cases hid

/-! ## Allocations -/

theorem CidShape.slot_of_not_mem (h : CidShape m)
    (hb : ∀ level, (b, level) ∉ m.allocated) (i : Nat) : m.slot b i = 0 := by
  by_contra hne
  obtain ⟨level, -, -, hmem, -⟩ := h.children b i hne
  exact hb level hmem

variable {level block : ULongPtr}

theorem CidMem.Fresh.not_mem (h : m.Fresh level block) (level' : ULongPtr) :
    (block, level') ∉ m.allocated := by
  intro hmem
  have := h.disjoint _ hmem
  have := cidBlockSize_pos level
  have := cidBlockSize_pos level'
  simp only at *
  omega

theorem CidShape.allocate_slot (h : CidShape m)
    (hfresh : m.Fresh level block) :
    (m.kphpCidAllocateTable level (some block)).slot = m.slot := by
  funext b i
  show Function.update m.slot block (fun _ => 0) b i = m.slot b i
  by_cases hb : b = block
  · subst hb
    rw [Function.update_self, h.slot_of_not_mem hfresh.not_mem]
  · rw [Function.update_of_ne hb]

theorem CidShape.allocate (h : CidShape m)
    (hfresh : m.Fresh level block) : CidShape (m.kphpCidAllocateTable level (some block)) := by
  refine ⟨h.levels, List.mem_cons_of_mem _ h.root, fun x hx => ?_, ?_, fun b i hne => ?_, ?_⟩
  · rcases List.mem_cons.mp hx with rfl | hx
    · exact ⟨hfresh.notNull, hfresh.aligned⟩
    · exact h.blocks x hx
  · exact List.pairwise_cons.mpr ⟨hfresh.disjoint, h.apart⟩
  · rw [h.allocate_slot hfresh] at hne ⊢
    obtain ⟨level, level', habove, hb, hchild⟩ := h.children b i hne
    exact ⟨level, level', habove, List.mem_cons_of_mem _ hb, List.mem_cons_of_mem _ hchild⟩
  · rw [h.allocate_slot hfresh]
    exact h.unique

theorem CidShape.spare (h : CidShape m) (hfresh : m.Fresh level block) :
    (m.kphpCidAllocateTable level (some block)).Spare level block := by
  refine ⟨List.mem_cons_self, fun i => ?_, fun b i heq => ?_, fun heq => ?_⟩
  · show Function.update m.slot block (fun _ => 0) block i = 0
    rw [Function.update_self]
  · rw [h.allocate_slot hfresh] at heq
    obtain ⟨-, level', -, -, hchild⟩ := h.children b i (heq ▸ hfresh.notNull)
    exact hfresh.not_mem level' (heq ▸ hchild)
  · exact hfresh.not_mem m.level (heq ▸ h.root)

theorem mid_congr {m' : CidMem} (htable : m'.table = m.table) (hslot : m'.slot = m.slot) :
    m'.mid = m.mid := by
  funext i
  rw [CidMem.mid, CidMem.level, CidMem.root, htable, hslot]
  rfl

theorem leaf_congr {m' : CidMem} (htable : m'.table = m.table) (hslot : m'.slot = m.slot) :
    m'.leaf = m.leaf := by
  funext k
  rw [CidMem.leaf, mid_congr htable hslot, CidMem.level, CidMem.root, htable, hslot]
  rfl

/-! ## Stores -/

theorem setSlot_slot (m : CidMem) (block : ULongPtr) (i : Nat) (value b : ULongPtr) (j : Nat) :
    (m.setSlot block i value).slot b j = if b = block ∧ j = i then value else m.slot b j := by
  show Function.update m.slot block (Function.update (m.slot block) i value) b j = _
  by_cases hb : b = block
  · subst hb
    rw [Function.update_self]
    by_cases hj : j = i
    · subst hj
      simp
    · simp [hj]
  · simp [hb]

theorem setSlot_eq_self {block : ULongPtr} (h : m.slot block i = 0) :
    m.setSlot block i 0 = m := by
  have hslot : (m.setSlot block i 0).slot = m.slot := by
    funext b j
    rw [setSlot_slot]
    split
    · next hboth => rw [hboth.1, hboth.2, h]
    · rfl
  have heta : m.setSlot block i 0 = { m with slot := (m.setSlot block i 0).slot } := rfl
  rw [heta, hslot]

theorem CidShape.setSlot (h : CidShape m) {block value level level' : ULongPtr} (i : Nat)
    (habove : LevelAbove level level')
    (hblock : (block, level) ∈ m.allocated) (hvalue : (value, level') ∈ m.allocated)
    (horphan : ∀ b j, m.slot b j ≠ value) : CidShape (m.setSlot block i value) := by
  refine ⟨h.levels, h.root, h.blocks, h.apart, fun b j hne => ?_, fun b j b' j' heq hne => ?_⟩
  · rw [setSlot_slot] at hne ⊢
    split at hne
    · next hboth =>
        rw [if_pos hboth, hboth.1]
        exact ⟨level, level', habove, hblock, hvalue⟩
    · next hboth =>
        rw [if_neg hboth]
        exact h.children b j hne
  · rw [setSlot_slot, setSlot_slot] at heq
    rw [setSlot_slot] at hne
    split at heq
    · next hboth =>
        split at heq
        · next hboth' => exact ⟨hboth.1.trans hboth'.1.symm, hboth.2.trans hboth'.2.symm⟩
        · exact absurd heq.symm (horphan b' j')
    · next hboth =>
        rw [if_neg hboth] at hne
        split at heq
        · exact absurd heq (horphan b j)
        · exact h.unique b j b' j' heq hne

theorem setSlot_mid_of_ne {block value : ULongPtr} (hroot : block ≠ m.root) :
    (m.setSlot block i value).mid = m.mid := by
  funext j
  have hslot : (m.setSlot block i value).slot m.root j = m.slot m.root j := by
    rw [setSlot_slot, if_neg fun hboth => hroot hboth.1.symm]
  show (if m.level = cidTableL1 then if j = 0 then some m.root else none
    else if m.level = cidTableL2 then notNull ((m.setSlot block i value).slot m.root j)
    else none) = _
  rw [hslot]
  rfl

theorem CidShape.setSlot_spare (h : CidShape m) (i : Nat)
    (value : ULongPtr) (hspare : m.Spare level block) :
    (m.setSlot block i value).mid = m.mid ∧ (m.setSlot block i value).leaf = m.leaf := by
  have hmid : (m.setSlot block i value).mid = m.mid := setSlot_mid_of_ne hspare.notRoot
  refine ⟨hmid, ?_⟩
  funext k
  by_cases hl : m.level = cidTableL0
  · rw [leaf_of_level_zero hl, leaf_of_level_zero (show (m.setSlot block i value).level = _ from hl)]
    rfl
  · rw [leaf_of_level hl, leaf_of_level (show (m.setSlot block i value).level ≠ _ from hl), hmid]
    cases hb : m.mid (k / 512) with
    | none => rfl
    | some b =>
        have hne : b ≠ block := by
          rintro rfl
          rcases (h.mid_spec hb).2 with ⟨-, -, hroot⟩ | ⟨-, hslot⟩
          · exact hspare.notRoot hroot
          · exact hspare.orphan _ _ hslot
        simp only [Option.bind_some]
        rw [setSlot_slot, if_neg fun hboth => hne hboth.1]

theorem CidShape.mid_ne_root (h : CidShape m) (hl : m.level = cidTableL2)
    (hmid : m.mid i = some b) : b ≠ m.root := by
  intro heq
  have hsame := h.eq_of_address (h.mid_spec hmid).1 h.root heq
  have hlevel := (Prod.mk.inj hsame).2
  rw [hl] at hlevel
  exact absurd hlevel (by decide)

theorem CidShape.setSlot_root (h : CidShape m) {block : ULongPtr}
    (hl : m.level = cidTableL2) (hempty : m.slot m.root i = 0) (hspare : m.Spare cidTableL1 block) :
    (∀ j, (m.setSlot m.root i block).mid j = if j = i then some block else m.mid j) ∧
      (m.setSlot m.root i block).leaf = m.leaf := by
  have hl' : (m.setSlot m.root i block).level = cidTableL2 := hl
  have hne := (h.blocks _ hspare.mem).1
  have hmid : ∀ j, (m.setSlot m.root i block).mid j = if j = i then some block else m.mid j := by
    intro j
    rw [mid_of_level_two hl', mid_of_level_two hl]
    show notNull ((m.setSlot m.root i block).slot m.root j) = _
    rw [setSlot_slot]
    by_cases hj : j = i
    · rw [if_pos ⟨rfl, hj⟩, if_pos hj, notNull, if_neg hne]
    · rw [if_neg fun hboth => hj hboth.2, if_neg hj]
  refine ⟨hmid, ?_⟩
  funext k
  have hlevel : cidTableL2 ≠ cidTableL0 := by decide
  rw [leaf_of_level (hl' ▸ hlevel), leaf_of_level (hl ▸ hlevel), hmid]
  by_cases hk : k / 512 = i
  · -- The new block is empty, and nothing was there before.
    rw [if_pos hk, mid_of_level_two hl, hk, hempty]
    simp only [Option.bind_some]
    rw [setSlot_slot, if_neg fun hboth => hspare.notRoot hboth.1, hspare.empty]
    rfl
  · rw [if_neg hk]
    cases hb : m.mid (k / 512) with
    | none => rfl
    | some b =>
        simp only [Option.bind_some]
        rw [setSlot_slot, if_neg]
        rintro ⟨rfl, -⟩
        exact h.mid_ne_root hl hb rfl

theorem CidShape.setSlot_mid (h : CidShape m) {b₁ block : ULongPtr} {i j : Nat}
    (hmid : m.mid i = some b₁) (hspare : m.Spare cidTableL0 block) (hj : j < 512) :
    (m.setSlot b₁ j block).mid = m.mid ∧
      ∀ k, (m.setSlot b₁ j block).leaf k = if k = 512 * i + j then some block else m.leaf k := by
  have hne := (h.blocks _ hspare.mem).1
  have hlevel : m.level ≠ cidTableL0 := by
    rcases (h.mid_spec hmid).2 with ⟨hl, -⟩ | ⟨hl, -⟩
    · rw [hl]
      decide
    · rw [hl]
      decide
  have hmid' : (m.setSlot b₁ j block).mid = m.mid := by
    rcases (h.mid_spec hmid).2 with ⟨hl, -, -⟩ | ⟨hl, -⟩
    · funext i'
      rw [mid_of_level_one hl, mid_of_level_one (show (m.setSlot b₁ j block).level = _ from hl)]
      rfl
    · exact setSlot_mid_of_ne (h.mid_ne_root hl hmid)
  refine ⟨hmid', fun k => ?_⟩
  rw [leaf_of_level hlevel, leaf_of_level (show (m.setSlot b₁ j block).level ≠ _ from hlevel), hmid']
  by_cases hk : k = 512 * i + j
  · have hdiv : k / 512 = i := by omega
    have hmod : k % 512 = j := by omega
    rw [if_pos hk, hdiv, hmod, hmid]
    simp only [Option.bind_some]
    rw [setSlot_slot, if_pos ⟨rfl, rfl⟩, notNull, if_neg hne]
  · rw [if_neg hk]
    cases hb : m.mid (k / 512) with
    | none => rfl
    | some b =>
        simp only [Option.bind_some]
        rw [setSlot_slot, if_neg]
        rintro ⟨rfl, hmod⟩
        have := h.mid_injective hb hmid
        omega

/-! ## A new root -/

/-- The new root is above the old one, and has it in its first slot only. -/
structure CidMem.Linked (m : CidMem) (level block : ULongPtr) : Prop where
  above : LevelAbove level m.level
  mem : (block, level) ∈ m.allocated
  first : m.slot block 0 = m.root
  empty : ∀ i, i ≠ 0 → m.slot block i = 0
  orphan : ∀ b i, m.slot b i ≠ block

theorem LevelAbove.root {level level' : ULongPtr} (h : LevelAbove level level') :
    level = cidTableL1 ∨ level = cidTableL2 := by
  rcases h with ⟨h, -⟩ | ⟨h, -⟩
  · exact .inl h
  · exact .inr h

theorem CidMem.Linked.level_publish (h : CidShape m)
    (hlinked : m.Linked level block) :
    ({ m with table := block ||| level } : CidMem).level = level :=
  cidLevel_or (h.blocks _ hlinked.mem).2 hlinked.above.root

theorem CidMem.Linked.root_publish (h : CidShape m)
    (hlinked : m.Linked level block) :
    ({ m with table := block ||| level } : CidMem).root = block :=
  cidPointer_or (h.blocks _ hlinked.mem).2 hlinked.above.root

theorem CidShape.publish (h : CidShape m)
    (hlinked : m.Linked level block) : CidShape { m with table := block ||| level } := by
  have hlevel := hlinked.level_publish h
  have hroot := hlinked.root_publish h
  refine ⟨?_, ?_, h.blocks, h.apart, h.children, h.unique⟩
  · rw [hlevel]
    exact .inr hlinked.above.root
  · rw [hlevel, hroot]
    exact hlinked.mem

theorem CidShape.publish_maps (h : CidShape m)
    (hlinked : m.Linked level block) :
    (∀ i b, m.mid i = some b → ({ m with table := block ||| level } : CidMem).mid i = some b) ∧
      ({ m with table := block ||| level } : CidMem).leaf = m.leaf := by
  generalize hm' : ({ m with table := block ||| level } : CidMem) = m'
  have hlevel : m'.level = level := hm' ▸ hlinked.level_publish h
  have hroot : m'.root = block := hm' ▸ hlinked.root_publish h
  have hslot : m'.slot = m.slot := hm' ▸ rfl
  have hrootne : m.root ≠ 0 := (h.blocks _ h.root).1
  rcases hlinked.above with ⟨hone, hzero⟩ | ⟨htwo, hone⟩
  · refine ⟨fun i b hmid => ?_, ?_⟩
    · rcases (h.mid_spec hmid).2 with ⟨hl, -⟩ | ⟨hl, -⟩
      · exact absurd (hl.symm.trans hzero) (by decide)
      · exact absurd (hl.symm.trans hzero) (by decide)
    · funext k
      have hl' : m'.level = cidTableL1 := hlevel.trans hone
      rw [leaf_of_level (by rw [hl']; decide), leaf_of_level_zero hzero, mid_of_level_one hl']
      by_cases hk : k / 512 = 0
      · rw [if_pos hk]
        simp only [Option.bind_some]
        rw [hroot, hslot]
        by_cases hk₀ : k = 0
        · rw [if_pos hk₀, hk₀, hlinked.first, notNull, if_neg hrootne]
        · rw [if_neg hk₀, hlinked.empty _ (by omega)]
          rfl
      · rw [if_neg hk, if_neg (by omega)]
        rfl
  · have hl' : m'.level = cidTableL2 := hlevel.trans htwo
    have hmid : ∀ i, m'.mid i = m.mid i := by
      intro i
      rw [mid_of_level_two hl', mid_of_level_one hone, hroot, hslot]
      by_cases hi : i = 0
      · rw [if_pos hi, hi, hlinked.first, notNull, if_neg hrootne]
      · rw [if_neg hi, hlinked.empty i hi]
        rfl
    refine ⟨fun i b hb => (hmid i).trans hb, ?_⟩
    funext k
    rw [leaf_of_level (by rw [hl']; decide), leaf_of_level (by rw [hone]; decide), hmid, hslot]

theorem CidShape.publish_quiet (h : CidShape m)
    (hlinked : m.Linked level block) :
    ({ m with table := block ||| level } : CidMem).Quiet := by
  intro b i
  rw [hlinked.root_publish h]
  exact hlinked.orphan b i

/-! ## What stays -/

/-- `c` is in a slot of `b`. -/
def CidMem.Parent (m : CidMem) (b c : ULongPtr) : Prop := ∃ i, m.slot b i = c ∧ c ≠ 0

/-- The block can be found from `Table->Table`. -/
def CidMem.Reaches (m : CidMem) (b : ULongPtr) : Prop := Relation.ReflTransGen m.Parent m.root b

/-- What a later memory keeps of an earlier one. -/
structure Grows (m m' : CidMem) : Prop where
  mid : ∀ i b, m.mid i = some b → m'.mid i = some b
  leaf : ∀ k b, m.leaf k = some b → m'.leaf k = some b
  top : m.level = cidTableL2 → m'.level = cidTableL2 ∧ m'.root = m.root
  reaches : ∀ b, m.Reaches b → m'.Reaches b

theorem Grows.refl (m : CidMem) : Grows m m :=
  ⟨fun _ _ h => h, fun _ _ h => h, fun h => ⟨h, rfl⟩, fun _ h => h⟩

theorem Grows.trans {m m' m'' : CidMem} (h : Grows m m') (h' : Grows m' m'') : Grows m m'' := by
  refine ⟨fun i b hb => h'.mid i b (h.mid i b hb), fun k b hb => h'.leaf k b (h.leaf k b hb),
    fun hl => ?_, fun b hb => h'.reaches b (h.reaches b hb)⟩
  obtain ⟨hl', hroot⟩ := h.top hl
  obtain ⟨hl'', hroot'⟩ := h'.top hl'
  exact ⟨hl'', hroot'.trans hroot⟩

theorem Grows.resolve {m m' : CidMem} (h : Grows m m') {id e : Nat} (hid : m.resolve id = some e) :
    m'.resolve id = some e := by
  unfold CidMem.resolve at hid ⊢
  split at hid
  · next hlt =>
      obtain ⟨b, hleaf, rfl⟩ := Option.map_eq_some_iff.mp hid
      rw [if_pos hlt, h.leaf _ _ hleaf]
      rfl
  · cases hid

theorem CidMem.Reaches.mono {m' : CidMem} (h : m.Reaches b)
    (hslot : ∀ b i, m.slot b i ≠ 0 → m'.slot b i = m.slot b i) (hroot : m'.Reaches m.root) :
    m'.Reaches b := by
  induction h with
  | refl => exact hroot
  | tail _ hchild ih =>
      obtain ⟨i, rfl, hne⟩ := hchild
      exact ih.tail ⟨i, hslot _ i hne, hne⟩

theorem reaches_setSlot {block value : ULongPtr} (hempty : m.slot block i = 0) (h : m.Reaches b) : (m.setSlot block i value).Reaches b := by
  refine h.mono (fun b j hne => ?_) .refl
  rw [setSlot_slot, if_neg]
  rintro ⟨rfl, rfl⟩
  exact hne hempty

theorem reaches_stored {block value : ULongPtr} (hempty : m.slot block i = 0)
    (hblock : m.Reaches block) (hne : value ≠ 0) : (m.setSlot block i value).Reaches value := by
  refine (reaches_setSlot hempty hblock).tail ⟨i, ?_, hne⟩
  rw [setSlot_slot, if_pos ⟨rfl, rfl⟩]

theorem CidShape.reaches_mid (h : CidShape m) (hmid : m.mid i = some b) :
    m.Reaches b := by
  obtain ⟨hmem, hcase⟩ := h.mid_spec hmid
  rcases hcase with ⟨-, -, rfl⟩ | ⟨-, hslot⟩
  · exact .refl
  · exact .single ⟨i, hslot, (h.blocks _ hmem).1⟩

theorem grows_of_eq {m' : CidMem} (htable : m'.table = m.table) (hslot : m'.slot = m.slot) :
    Grows m m' := by
  have hroot : m'.root = m.root := by rw [CidMem.root, htable]; rfl
  refine ⟨fun i b hb => ?_, fun k b hb => ?_, fun hl => ?_, fun b hb => ?_⟩
  · rw [mid_congr htable hslot]
    exact hb
  · rw [leaf_congr htable hslot]
    exact hb
  · rw [hroot, CidMem.level, htable]
    exact ⟨hl, rfl⟩
  · refine hb.mono (fun b i _ => by rw [hslot]) ?_
    rw [CidMem.Reaches, hroot]

theorem CidShape.grows_link (h : CidShape m)
    (hspare : m.Spare level block) : Grows m (m.setSlot block 0 m.root) := by
  obtain ⟨hmid, hleaf⟩ := h.setSlot_spare 0 m.root hspare
  refine ⟨fun i b hb => ?_, fun k b hb => ?_, fun hl => ⟨hl, rfl⟩, fun b hb => ?_⟩
  · rw [hmid]
    exact hb
  · rw [hleaf]
    exact hb
  · exact reaches_setSlot (hspare.empty 0) hb

theorem CidMem.Spare.linked (hspare : m.Spare level block)
    (habove : LevelAbove level m.level) : (m.setSlot block 0 m.root).Linked level block := by
  refine ⟨habove, hspare.mem, ?_, fun i hi => ?_, fun b i => ?_⟩
  · rw [setSlot_slot, if_pos ⟨rfl, rfl⟩]
    rfl
  · rw [setSlot_slot, if_neg fun hboth => hi hboth.2]
    exact hspare.empty i
  · rw [setSlot_slot]
    split
    · exact hspare.notRoot.symm
    · exact hspare.orphan b i

theorem CidShape.grows_publish (h : CidShape m)
    (hlinked : m.Linked level block) : Grows m { m with table := block ||| level } := by
  obtain ⟨hmid, hleaf⟩ := h.publish_maps hlinked
  refine ⟨hmid, fun k b hb => ?_, fun hl => ?_, fun b hb => ?_⟩
  · rw [hleaf]
    exact hb
  · rcases hlinked.above with ⟨-, hzero⟩ | ⟨-, hone⟩
    · exact absurd (hl.symm.trans hzero) (by decide)
    · exact absurd (hl.symm.trans hone) (by decide)
  · refine hb.mono (fun b i _ => rfl) ?_
    rw [CidMem.Reaches, hlinked.root_publish h]
    exact .single ⟨0, hlinked.first, (h.blocks _ h.root).1⟩

theorem CidShape.grows_root (h : CidShape m) {block : ULongPtr}
    (hl : m.level = cidTableL2) (hempty : m.slot m.root i = 0)
    (hspare : m.Spare cidTableL1 block) : Grows m (m.setSlot m.root i block) := by
  obtain ⟨hmid, hleaf⟩ := h.setSlot_root hl hempty hspare
  refine ⟨fun j b hb => ?_, fun k b hb => ?_, fun hl => ⟨hl, rfl⟩, fun b hb => ?_⟩
  · rw [hmid, if_neg]
    · exact hb
    · rintro rfl
      rw [mid_of_level_two hl, hempty] at hb
      cases hb
  · rw [hleaf]
    exact hb
  · exact reaches_setSlot hempty hb

theorem CidShape.grows_mid (h : CidShape m) {b₁ block : ULongPtr} {i j : Nat}
    (hmid : m.mid i = some b₁) (hspare : m.Spare cidTableL0 block) (hj : j < 512)
    (hempty : m.slot b₁ j = 0) : Grows m (m.setSlot b₁ j block) := by
  obtain ⟨hsame, hleaf⟩ := h.setSlot_mid hmid hspare hj
  refine ⟨fun i b hb => ?_, fun k b hb => ?_, fun hl => ⟨hl, rfl⟩, fun b hb => ?_⟩
  · rw [hsame]
    exact hb
  · rw [hleaf, if_neg]
    · exact hb
    · rintro rfl
      have hlevel : m.level ≠ cidTableL0 := by
        rcases (h.mid_spec hmid).2 with ⟨hl, -⟩ | ⟨hl, -⟩
        · rw [hl]
          decide
        · rw [hl]
          decide
      have hdiv : (512 * i + j) / 512 = i := by omega
      have hmod : (512 * i + j) % 512 = j := by omega
      rw [leaf_of_level hlevel, hdiv, hmod, hmid] at hb
      simp only [Option.bind_some] at hb
      rw [hempty] at hb
      cases hb
  · exact reaches_setSlot hempty hb

end

end SystemInformer.Driver
