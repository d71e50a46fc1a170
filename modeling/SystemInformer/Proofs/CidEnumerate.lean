import SystemInformer.Driver.CidEnumerate
import SystemInformer.Lib.Census
import SystemInformer.Proofs.CidTable

/-!
# A CID table is traversed entry by entry

The leaves of the tree in the order of their pages are what the loops of a traversal come to,
whatever the level of the root: a root of level zero is the first leaf, the slots of a root
of level one are the leaves of the first group of pages, and the slots of the level one
blocks those of the others. A loop passes over the slots that are null, and so there is
nothing in them that `leaf` would find. Each leaf has the entries of 512 ids, so all loops
together are one loop over the entries in the order of their ids; no entry comes twice, since
no two ids have the same one.

`KphCidTableDelete` goes through the same slots. A block in the tree is in one slot only, and
a slot beyond the end of its block is never used, so each block that was allocated is freed
once.
-/

namespace SystemInformer.Driver

open Loops

variable {τ ω σ : Type}

/-! ## The leaves -/

namespace CidMem

variable {m : CidMem}

/-- The level zero blocks in the order of their ids. -/
def leaves (m : CidMem) : List ULongPtr := (List.range (cidMax / cidMaxL0)).filterMap m.leaf

def entries (m : CidMem) : List Nat := (List.range cidMax).filterMap m.resolve

def blockEntries (block : ULongPtr) : List Nat := (List.range cidL0Count).map (cidEntry block)

theorem range_pages : List.range cidMax =
    (List.range (cidMax / cidMaxL0)).flatMap fun k =>
      (List.range cidL0Count).map fun j => k * cidL0Count + j :=
  range_mul (cidMax / cidMaxL0) cidL0Count

theorem resolve_page {k j : Nat} (hk : k < cidMax / cidMaxL0) (hj : j < cidL0Count) :
    m.resolve (k * cidL0Count + j) = (m.leaf k).map fun b => cidEntry b j := by
  have hmax : cidMax / cidMaxL0 = 32768 := rfl
  have hall : cidMax = 16777216 := rfl
  have hcount : cidL0Count = 512 := rfl
  rw [hmax] at hk
  rw [hcount] at hj ⊢
  have hdiv : (k * 512 + j) / 512 = k := by omega
  have hmod : (k * 512 + j) % 512 = j := by omega
  rw [CidMem.resolve, if_pos (by rw [hall]; omega), hdiv, hmod]

theorem entries_eq (m : CidMem) : m.entries = m.leaves.flatMap blockEntries := by
  have hpage : ∀ k ∈ List.range (cidMax / cidMaxL0),
      ((List.range cidL0Count).map fun j => k * cidL0Count + j).filterMap m.resolve =
        (m.leaf k).toList.flatMap blockEntries := by
    intro k hk
    have hentry : ∀ j ∈ List.range cidL0Count,
        (m.resolve ∘ fun j => k * cidL0Count + j) j = (m.leaf k).map fun b => cidEntry b j :=
      fun j hj => resolve_page (List.mem_range.mp hk) (List.mem_range.mp hj)
    rw [List.filterMap_map, List.filterMap_congr hentry]
    cases m.leaf k with
    | none => simp
    | some b => simp [blockEntries, List.filterMap_eq_map']
  rw [entries, range_pages, List.filterMap_flatMap, leaves]
  rw [List.flatMap_congr hpage]
  induction List.range (cidMax / cidMaxL0) with
  | nil => rfl
  | cons k l ih =>
      cases hleaf : m.leaf k <;> simp [hleaf, ih]

/-! ## Which blocks a root refers to -/

def children (m : CidMem) (block : ULongPtr) (n : Nat) : List ULongPtr :=
  (List.range n).filterMap fun i => notNull (m.slot block i)

theorem leaves_level_zero (h : m.level = cidTableL0) : m.leaves = [m.root] := by
  have hsplit : List.range (cidMax / cidMaxL0) = 0 :: (List.range 32767).map Nat.succ :=
    List.range_succ_eq_map
  have hnone : ∀ k ∈ List.range 32767, (m.leaf ∘ Nat.succ) k = none := by
    intro k _
    rw [Function.comp_apply, leaf_of_level_zero h, if_neg (Nat.succ_ne_zero k)]
  have hroot : m.leaf 0 = some m.root := by rw [leaf_of_level_zero h, if_pos rfl]
  rw [leaves, hsplit, List.filterMap_cons_some hroot, List.filterMap_map,
    List.filterMap_eq_nil_iff.mpr hnone]

theorem leaves_level_one (h : m.level = cidTableL1) : m.leaves = m.children m.root cidL1Count := by
  have hlevel : m.level ≠ cidTableL0 := by
    rw [h]
    decide
  have hsplit : List.range (cidMax / cidMaxL0) =
      List.range cidL1Count ++ (List.range 32256).map (cidL1Count + ·) := by
    rw [← List.range_add]
    rfl
  have hfirst : ∀ k ∈ List.range cidL1Count, m.leaf k = notNull (m.slot m.root k) := by
    intro k hk
    have hlt : k < 512 := List.mem_range.mp hk
    rw [leaf_of_level hlevel, mid_of_level_one h, if_pos (Nat.div_eq_of_lt hlt),
      Nat.mod_eq_of_lt hlt]
    rfl
  have hrest : ∀ k ∈ List.range 32256, (m.leaf ∘ (cidL1Count + ·)) k = none := by
    intro k _
    have hcount : cidL1Count = 512 := rfl
    have hne : (cidL1Count + k) / 512 ≠ 0 := by
      rw [hcount]
      omega
    rw [Function.comp_apply, leaf_of_level hlevel, mid_of_level_one h, if_neg hne]
    rfl
  rw [leaves, hsplit, List.filterMap_append, List.filterMap_congr hfirst, List.filterMap_map,
    List.filterMap_eq_nil_iff.mpr hrest, List.append_nil, children]

theorem leaves_level_two (h : m.level = cidTableL2) :
    m.leaves = (m.children m.root cidL2Count).flatMap fun b => m.children b cidL1Count := by
  have hlevel : m.level ≠ cidTableL0 := by
    rw [h]
    decide
  have hgroup : ∀ i ∈ List.range cidL2Count,
      ((List.range cidL1Count).map fun j => i * cidL1Count + j).filterMap m.leaf =
        (notNull (m.slot m.root i)).toList.flatMap fun b => m.children b cidL1Count := by
    intro i _
    have hleaf : ∀ j ∈ List.range cidL1Count, (m.leaf ∘ fun j => i * cidL1Count + j) j =
        (notNull (m.slot m.root i)).bind fun b => notNull (m.slot b j) := by
      intro j hj
      have hlt : j < 512 := List.mem_range.mp hj
      have hcount : cidL1Count = 512 := rfl
      have hdiv : (i * cidL1Count + j) / 512 = i := by
        rw [hcount]
        omega
      have hmod : (i * cidL1Count + j) % 512 = j := by
        rw [hcount]
        omega
      rw [Function.comp_apply, leaf_of_level hlevel, mid_of_level_two h, hdiv, hmod]
    rw [List.filterMap_map, List.filterMap_congr hleaf]
    cases notNull (m.slot m.root i) with
    | none => simp
    | some b => simp [children]
  have hsplit : List.range (cidMax / cidMaxL0) =
      (List.range cidL2Count).flatMap fun i =>
        (List.range cidL1Count).map fun j => i * cidL1Count + j := range_mul cidL2Count cidL1Count
  rw [leaves, hsplit, List.filterMap_flatMap, List.flatMap_congr hgroup, children]
  induction List.range cidL2Count with
  | nil => rfl
  | cons i l ih =>
      cases hslot : notNull (m.slot m.root i) <;> simp [hslot, ih]

/-! ## The loops -/

theorem notNull_elim {α : Type} (block : ULongPtr) (a : α) (f : ULongPtr → α) :
    (notNull block).elim a f = if block = 0 then a else f block := by
  rw [notNull]
  split <;> rfl

theorem enumerateL0_eq (callback : CidCallback ω σ) (block : ULongPtr) (v : CidVisit ω σ) :
    enumerateL0 callback block v =
      untilStop (kphpCidEnumerateInvokeCallback callback) (blockEntries block) v := by
  rw [enumerateL0, blockEntries, untilStop_map]

theorem enumerateL1_eq (callback : CidCallback ω σ) (block : ULongPtr) (v : CidVisit ω σ) :
    m.enumerateL1 callback block v =
      untilStop (enumerateL0 callback) (m.children block cidL1Count) v := by
  rw [enumerateL1, children, untilStop_filterMap]
  simp only [notNull_elim]

theorem enumerateL2_eq (callback : CidCallback ω σ) (block : ULongPtr) (v : CidVisit ω σ) :
    m.enumerateL2 callback block v =
      untilStop (m.enumerateL1 callback) (m.children block cidL2Count) v := by
  rw [enumerateL2, children, untilStop_filterMap]
  simp only [notNull_elim]

end CidMem

theorem CidShape.table_ne_zero {m : CidMem} (h : CidShape m) : m.table ≠ 0 := by
  intro hzero
  have hroot : m.root = 0 := by
    rw [CidMem.root, hzero]
    rfl
  exact (h.blocks _ h.root).1 hroot

theorem kphpCidEnumerate_eq {m : CidMem} (h : CidShape m) (callback : CidCallback ω σ)
    (v : CidVisit ω σ) : m.kphpCidEnumerate callback v =
      (untilStop (kphpCidEnumerateInvokeCallback callback) m.entries v).2 := by
  have hblock : (fun b => untilStop (kphpCidEnumerateInvokeCallback callback)
      (CidMem.blockEntries b)) = CidMem.enumerateL0 callback := by
    funext b w
    exact (CidMem.enumerateL0_eq callback b w).symm
  have hgroup : (fun b => untilStop (CidMem.enumerateL0 callback) (m.children b cidL1Count)) =
      m.enumerateL1 callback := by
    funext b w
    exact (CidMem.enumerateL1_eq callback b w).symm
  rw [m.entries_eq, untilStop_flatMap, hblock, CidMem.kphpCidEnumerate, if_neg h.table_ne_zero]
  rcases h.levels with hl | hl | hl
  · have hlevel : cidLevel m.table = cidTableL0 := hl
    rw [if_pos hlevel, CidMem.leaves_level_zero hl, untilStop]
    cases hbody : CidMem.enumerateL0 callback m.root v with
    | mk stop w => cases stop <;> exact congrArg Prod.snd hbody
  · have hlevel : cidLevel m.table = cidTableL1 := hl
    rw [hlevel, if_neg (by decide), if_pos rfl, CidMem.leaves_level_one hl]
    exact congrArg Prod.snd (CidMem.enumerateL1_eq callback m.root v)
  · have hlevel : cidLevel m.table = cidTableL2 := hl
    rw [hlevel, if_neg (by decide), if_neg (by decide), if_pos rfl, CidMem.leaves_level_two hl,
      untilStop_flatMap, hgroup]
    exact congrArg Prod.snd (CidMem.enumerateL2_eq callback m.root v)

def enumerated (object : ω) : List (CidEvent ω) :=
  [.kphReferenceObject object, .callback object, .kphDereferenceObject object]

def ranDown (object : ω) : List (CidEvent ω) := [.callback object, .kphDereferenceObject object]

theorem untilStop_enumerate (callback : σ → ω → σ × Bool) (l : List Nat) (v : CidVisit ω σ) :
    (untilStop (kphpCidEnumerateInvokeCallback (.enumerate callback)) l v).2 =
      { object := v.object
        events := v.events ++
          (visitUntil callback v.parameter (l.filterMap v.object)).1.flatMap enumerated
        parameter := (visitUntil callback v.parameter (l.filterMap v.object)).2 } := by
  induction l generalizing v with
  | nil => simp [untilStop, visitUntil]
  | cons entry l ih =>
      rw [untilStop, kphpCidEnumerateInvokeCallback]
      cases hobject : v.object entry with
      | none => simp only [ih, List.filterMap_cons_none hobject]
      | some object =>
          rw [List.filterMap_cons_some hobject, visitUntil]
          cases hcall : callback v.parameter object with
          | mk parameter res =>
              cases res with
              | true => simp [hcall, enumerated]
              | false => simp [hcall, ih, enumerated]

theorem untilStop_rundown (callback : σ → ω → σ) {l : List Nat} (hnodup : l.Nodup)
    (v : CidVisit ω σ) :
    (untilStop (kphpCidEnumerateInvokeCallback (.rundown callback)) l v).2 =
      { object := fun entry => if entry ∈ l then none else v.object entry
        events := v.events ++ (l.filterMap v.object).flatMap ranDown
        parameter := (l.filterMap v.object).foldl callback v.parameter } := by
  induction l generalizing v with
  | nil => simp [untilStop]
  | cons entry l ih =>
      obtain ⟨hnew, hrest⟩ := List.nodup_cons.mp hnodup
      have hsame : l.filterMap (Function.update v.object entry none) = l.filterMap v.object := by
        refine List.filterMap_congr fun e he => ?_
        have hne : e ≠ entry := fun heq => hnew (heq ▸ he)
        rw [Function.update_of_ne hne]
      have hempty : (fun e => if e ∈ l then none else Function.update v.object entry none e) =
          fun e => if e ∈ entry :: l then none else v.object e := by
        funext e
        by_cases he : e = entry
        · subst he
          simp
        · simp [he]
      rw [untilStop, kphpCidEnumerateInvokeCallback]
      cases hobject : v.object entry with
      | none => simp only [ih hrest, hsame, hempty, List.filterMap_cons_none hobject]
      | some object =>
          simp only [ih hrest, hsame, hempty, List.filterMap_cons_some hobject, List.foldl_cons,
            List.flatMap_cons, ranDown, List.append_assoc]

theorem CidShape.entries_nodup {m : CidMem} (h : CidShape m) : m.entries.Nodup := by
  refine List.Nodup.filterMap ?_ List.nodup_range
  intro id id' e he he'
  exact h.resolve_injective he he'

theorem CidShape.lookup_eq {m : CidMem} (h : CidShape m) (cid : Nat) :
    m.kphpCidLookupEntry cid = m.resolve (kphpCidToId cid) := by
  have hzero : cidMaxL0 = 512 := rfl
  have hone : cidMaxL1 = 262144 := rfl
  have htwo : cidMaxL2 = cidMax := rfl
  have hall : cidMax = 16777216 := rfl
  rw [CidMem.kphpCidLookupEntry]
  generalize kphpCidToId cid = id
  have hsome : ∀ block : ULongPtr, ∀ index, (if block = 0 then none else some (cidEntry block index)) =
      (notNull block).map fun b => cidEntry b index := by
    intro block index
    rw [notNull]
    split <;> rfl
  dsimp only
  rcases h.levels with hl | hl | hl
  · have hlevel : cidLevel m.table = cidTableL0 := hl
    rw [if_pos hlevel, CidMem.resolve, leaf_of_level_zero hl]
    split
    · next hge =>
        have hne : id / 512 ≠ 0 := by omega
        rw [if_neg hne]
        split <;> rfl
    · next hlt =>
        have heq : id / 512 = 0 := by omega
        have hid : id < cidMax := by omega
        rw [if_pos heq, if_pos hid, Nat.mod_eq_of_lt (by omega)]
        rfl
  · have hlevel : cidLevel m.table = cidTableL1 := hl
    have hne : m.level ≠ cidTableL0 := by
      rw [hl]
      decide
    rw [hlevel, if_neg (by decide), if_pos rfl, CidMem.resolve, leaf_of_level hne,
      mid_of_level_one hl]
    split
    · next hge =>
        have hgroup : id / 512 / 512 ≠ 0 := by omega
        rw [if_neg hgroup]
        split <;> rfl
    · next hlt =>
        have hgroup : id / 512 / 512 = 0 := by omega
        have hmod : id / 512 % 512 = id / 512 := by omega
        have hid : id < cidMax := by omega
        rw [if_pos hgroup, if_pos hid, hsome, hzero, Option.bind_some, hmod]
        rfl
  · have hlevel : cidLevel m.table = cidTableL2 := hl
    have hne : m.level ≠ cidTableL0 := by
      rw [hl]
      decide
    rw [hlevel, if_neg (by decide), if_neg (by decide), if_pos rfl, CidMem.resolve,
      leaf_of_level hne, mid_of_level_two hl, htwo]
    split
    · next hge => rw [if_neg (Nat.not_lt.mpr hge)]
    · next hlt =>
        rw [if_pos (Nat.not_le.mp hlt), div_cidMaxL1, mod_cidMaxL1_div, mod_cidMaxL1_mod, hsome]
        show (if m.slot m.root (id / 512 / 512) = 0 then none else _) = _
        cases hslot : notNull (m.slot m.root (id / 512 / 512)) with
        | none =>
            rw [if_pos (notNull_eq_none.mp hslot)]
            rfl
        | some b =>
            obtain ⟨rfl, hne⟩ := notNull_eq_some.mp hslot
            rw [if_neg hne]
            rfl

/-! ## Deletion -/

def CidMem.Within (m : CidMem) : Prop :=
  ∀ b i level, (b, level) ∈ m.allocated → m.slot b i ≠ 0 → 8 * (i + 1) ≤ cidBlockSize level

section

variable {m : CidMem}

theorem CidMem.mem_children {block b : ULongPtr} {n : Nat} :
    b ∈ m.children block n ↔ ∃ i < n, m.slot block i = b ∧ b ≠ 0 := by
  simp only [CidMem.children, List.mem_filterMap, List.mem_range, notNull_eq_some]

theorem CidShape.child (h : CidShape m) {b level : ULongPtr} {i : Nat}
    (hb : (b, level) ∈ m.allocated) (hne : m.slot b i ≠ 0) :
    ∃ level', LevelAbove level level' ∧ (m.slot b i, level') ∈ m.allocated := by
  obtain ⟨level₁, level', habove, hb₁, hchild⟩ := h.children b i hne
  obtain ⟨-, rfl⟩ := Prod.mk.inj (h.eq_of_address hb₁ hb rfl)
  exact ⟨level', habove, hchild⟩

theorem CidShape.child_level_one (h : CidShape m) {b c : ULongPtr} {n : Nat}
    (hb : (b, cidTableL1) ∈ m.allocated) (hc : c ∈ m.children b n) :
    (c, cidTableL0) ∈ m.allocated := by
  obtain ⟨i, -, rfl, hne⟩ := CidMem.mem_children.mp hc
  obtain ⟨level', ⟨-, rfl⟩ | ⟨hno, -⟩, hmem⟩ := h.child hb hne
  · exact hmem
  · exact absurd hno (by decide)

theorem CidShape.child_level_two (h : CidShape m) {b c : ULongPtr} {n : Nat}
    (hb : (b, cidTableL2) ∈ m.allocated) (hc : c ∈ m.children b n) :
    (c, cidTableL1) ∈ m.allocated := by
  obtain ⟨i, -, rfl, hne⟩ := CidMem.mem_children.mp hc
  obtain ⟨level', ⟨hno, -⟩ | ⟨-, rfl⟩, hmem⟩ := h.child hb hne
  · exact absurd hno (by decide)
  · exact hmem

theorem CidShape.childless (h : CidShape m) {b : ULongPtr} (hb : (b, cidTableL0) ∈ m.allocated)
    (i : Nat) : m.slot b i = 0 := by
  by_contra hne
  obtain ⟨level', ⟨hno, -⟩ | ⟨hno, -⟩, -⟩ := h.child hb hne
  · exact absurd hno (by decide)
  · exact absurd hno (by decide)

theorem CidShape.level_unique (h : CidShape m) {b level level' : ULongPtr}
    (hb : (b, level) ∈ m.allocated) (hb' : (b, level') ∈ m.allocated) : level = level' :=
  (Prod.mk.inj (h.eq_of_address hb hb' rfl)).2

theorem CidShape.children_nodup (h : CidShape m) (b : ULongPtr) (n : Nat) :
    (m.children b n).Nodup := by
  refine List.Nodup.filterMap ?_ List.nodup_range
  intro i i' c hc hc'
  obtain ⟨hslot, hne⟩ := notNull_eq_some.mp hc
  obtain ⟨hslot', -⟩ := notNull_eq_some.mp hc'
  exact (h.unique b i b i' (hslot.trans hslot'.symm) (hslot ▸ hne)).2

theorem CidShape.children_apart (h : CidShape m) {b b' c : ULongPtr} {n n' : Nat}
    (hc : c ∈ m.children b n) (hc' : c ∈ m.children b' n') : b = b' := by
  obtain ⟨i, -, hslot, hne⟩ := CidMem.mem_children.mp hc
  obtain ⟨i', -, hslot', -⟩ := CidMem.mem_children.mp hc'
  exact (h.unique b i b' i' (hslot.trans hslot'.symm) (hslot ▸ hne)).1

theorem CidMem.flatMap_slots {α : Type} (f : ULongPtr → List α) (b : ULongPtr) (l : List Nat) :
    (l.flatMap fun i => if m.slot b i = 0 then [] else f (m.slot b i)) =
      (l.filterMap fun i => notNull (m.slot b i)).flatMap f := by
  induction l with
  | nil => rfl
  | cons i l ih =>
      rw [List.flatMap_cons, ih]
      by_cases hslot : m.slot b i = 0
      · have hnone : notNull (m.slot b i) = none := notNull_eq_none.mpr hslot
        simp only [if_pos hslot, List.filterMap_cons, hnone, List.nil_append]
      · have hsome : notNull (m.slot b i) = some (m.slot b i) := notNull_eq_some.mpr ⟨rfl, hslot⟩
        simp only [if_neg hslot, List.filterMap_cons, hsome, List.flatMap_cons]

theorem CidMem.freeL1_eq (b : ULongPtr) : m.freeL1 b = m.children b cidL1Count ++ [b] := by
  have hslots := CidMem.flatMap_slots (m := m) (fun c => [c]) b (List.range cidL1Count)
  simp only [CidMem.freeL1, ne_eq, ite_not, hslots, List.flatMap_singleton']
  rfl

theorem CidShape.kphCidTableDelete_eq (h : CidShape m) :
    m.kphCidTableDelete =
      (if m.level = cidTableL0 then []
       else if m.level = cidTableL1 then m.children m.root cidL1Count
       else (m.children m.root cidL2Count).flatMap m.freeL1) ++ [m.root] := by
  rw [CidMem.kphCidTableDelete, if_neg h.table_ne_zero]
  rcases h.levels with hl | hl | hl
  · have hlevel : cidLevel m.table = cidTableL0 := hl
    rw [if_pos hlevel, if_pos hl]
    rfl
  · have hlevel : cidLevel m.table = cidTableL1 := hl
    rw [hlevel, hl, if_neg (by decide), if_pos rfl, if_neg (by decide), if_pos rfl,
      CidMem.freeL1_eq]
    rfl
  · have hlevel : cidLevel m.table = cidTableL2 := hl
    rw [hlevel, hl, if_neg (by decide), if_neg (by decide), if_pos rfl, if_neg (by decide),
      if_neg (by decide)]
    exact congrArg (· ++ [m.root]) (CidMem.flatMap_slots m.freeL1 m.root (List.range cidL2Count))

theorem CidShape.freeL1_nodup (h : CidShape m) {b : ULongPtr} (hb : (b, cidTableL1) ∈ m.allocated) :
    (m.freeL1 b).Nodup := by
  rw [CidMem.freeL1_eq, List.nodup_append_comm, List.singleton_append]
  refine List.nodup_cons.mpr ⟨fun hself => ?_, h.children_nodup b _⟩
  exact absurd (h.level_unique hb (h.child_level_one hb hself)) (by decide)

theorem CidShape.kphCidTableDelete_nodup (h : CidShape m) (hquiet : m.Quiet) :
    m.kphCidTableDelete.Nodup := by
  have hroot : ∀ n, m.root ∉ m.children m.root n := by
    intro n hno
    obtain ⟨i, -, hslot, -⟩ := CidMem.mem_children.mp hno
    exact hquiet _ _ hslot
  rw [h.kphCidTableDelete_eq, List.nodup_append_comm, List.singleton_append]
  split
  · exact List.nodup_singleton _
  · split
    · exact List.nodup_cons.mpr ⟨hroot _, h.children_nodup _ _⟩
    · next hzero hone =>
        have htwo : m.level = cidTableL2 := (h.levels.resolve_left hzero).resolve_left hone
        have hmem : (m.root, cidTableL2) ∈ m.allocated := htwo ▸ h.root
        have hmid : ∀ b ∈ m.children m.root cidL2Count, (b, cidTableL1) ∈ m.allocated :=
          fun b hb => h.child_level_two hmem hb
        refine List.nodup_cons.mpr ⟨fun hno => ?_, List.nodup_flatMap.mpr
          ⟨fun b hb => h.freeL1_nodup (hmid b hb), ?_⟩⟩
        · obtain ⟨b, hb, hfreed⟩ := List.mem_flatMap.mp hno
          rw [CidMem.freeL1_eq, List.mem_append, List.mem_singleton] at hfreed
          rcases hfreed with hchild | rfl
          · exact absurd (h.level_unique hmem (h.child_level_one (hmid b hb) hchild)) (by decide)
          · exact hroot _ hb
        · refine List.Pairwise.imp_of_mem ?_ (h.children_nodup m.root cidL2Count)
          intro b b' hb hb' hne c hc hc'
          rw [CidMem.freeL1_eq, List.mem_append, List.mem_singleton] at hc hc'
          rcases hc with hc | rfl
          · rcases hc' with hc' | rfl
            · exact hne (h.children_apart hc hc')
            · exact absurd (h.level_unique (hmid c hb') (h.child_level_one (hmid b hb) hc)) (by decide)
          · rcases hc' with hc' | heq
            · exact absurd (h.level_unique (hmid c hb) (h.child_level_one (hmid b' hb') hc'))
                (by decide)
            · exact hne heq

theorem CidShape.allocated_of_freed (h : CidShape m) {b : ULongPtr}
    (hb : b ∈ m.kphCidTableDelete) : ∃ level, (b, level) ∈ m.allocated := by
  rw [h.kphCidTableDelete_eq, List.mem_append, List.mem_singleton] at hb
  rcases hb with hb | rfl
  · split at hb
    · cases hb
    · split at hb
      · next hone => exact ⟨_, h.child_level_one (hone ▸ h.root) hb⟩
      · next hzero hone =>
          have htwo : m.level = cidTableL2 := (h.levels.resolve_left hzero).resolve_left hone
          obtain ⟨c, hc, hfreed⟩ := List.mem_flatMap.mp hb
          have hmid := h.child_level_two (htwo ▸ h.root) hc
          rw [CidMem.freeL1_eq, List.mem_append, List.mem_singleton] at hfreed
          rcases hfreed with hchild | rfl
          · exact ⟨_, h.child_level_one hmid hchild⟩
          · exact ⟨_, hmid⟩
  · exact ⟨_, h.root⟩

theorem CidMem.Within.child (hwithin : m.Within) {b level : ULongPtr} {i n : Nat}
    (hb : (b, level) ∈ m.allocated) (hsize : cidBlockSize level = 8 * n) (hne : m.slot b i ≠ 0) :
    m.slot b i ∈ m.children b n := by
  have hbound := hwithin b i level hb hne
  exact CidMem.mem_children.mpr ⟨i, by omega, rfl, hne⟩

theorem CidShape.freed_of_reaches (h : CidShape m) (hwithin : m.Within) {b : ULongPtr}
    (hreach : m.Reaches b) : b ∈ m.kphCidTableDelete := by
  rw [h.kphCidTableDelete_eq, List.mem_append, List.mem_singleton]
  induction hreach with
  | refl => exact .inr rfl
  | tail _ hparent ih =>
      obtain ⟨i, rfl, hne⟩ := hparent
      left
      split at ih
      · next hzero =>
          obtain rfl := ih.resolve_left List.not_mem_nil
          exact absurd (h.childless (hzero ▸ h.root) i) hne
      · next hzero =>
          rw [if_neg hzero]
          split at ih
          · next hone =>
              rw [if_pos hone]
              rcases ih with hchild | rfl
              · exact absurd (h.childless (h.child_level_one (hone ▸ h.root) hchild) i) hne
              · exact hwithin.child (hone ▸ h.root) rfl hne
          · next hone =>
              rw [if_neg hone]
              have htwo : m.level = cidTableL2 := (h.levels.resolve_left hzero).resolve_left hone
              have hroot : (m.root, cidTableL2) ∈ m.allocated := htwo ▸ h.root
              rcases ih with hfreed | rfl
              · obtain ⟨c, hc, hfreed⟩ := List.mem_flatMap.mp hfreed
                have hmid := h.child_level_two hroot hc
                rw [CidMem.freeL1_eq, List.mem_append, List.mem_singleton] at hfreed
                rcases hfreed with hchild | rfl
                · exact absurd (h.childless (h.child_level_one hmid hchild) i) hne
                · refine List.mem_flatMap.mpr ⟨_, hc, ?_⟩
                  rw [CidMem.freeL1_eq]
                  exact List.mem_append_left _ (hwithin.child hmid rfl hne)
              · refine List.mem_flatMap.mpr ⟨_, hwithin.child hroot rfl hne, ?_⟩
                rw [CidMem.freeL1_eq]
                exact List.mem_append_right _ (List.mem_singleton.mpr rfl)

end

/-! ## Runs -/

theorem CidMem.Within.allocate {m : CidMem} (hwithin : m.Within) (h : CidShape m)
    {level block : ULongPtr} (hfresh : m.Fresh level block) :
    (m.kphpCidAllocateTable level (some block)).Within := by
  intro b i level' hb hne
  rw [h.allocate_slot hfresh] at hne
  rcases List.mem_cons.mp hb with hnew | hold
  · obtain ⟨rfl, rfl⟩ := Prod.mk.inj hnew
    exact absurd (h.slot_of_not_mem hfresh.not_mem i) hne
  · exact hwithin b i level' hold hne

theorem CidMem.Within.setSlot {m : CidMem} (hwithin : m.Within) {block : ULongPtr} {i : Nat}
    (value : ULongPtr)
    (hbound : ∀ level, (block, level) ∈ m.allocated → 8 * (i + 1) ≤ cidBlockSize level) :
    (m.setSlot block i value).Within := by
  intro b j level hb hne
  rw [setSlot_slot] at hne
  split at hne
  · next hsame =>
      obtain ⟨rfl, rfl⟩ := hsame
      exact hbound level hb
  · exact hwithin b j level hb hne

theorem le_cidBlockSize (level : ULongPtr) : 8 ≤ cidBlockSize level := by
  rw [cidBlockSize]
  split
  · decide
  · decide

section

variable [DecidableEq τ] {s : CidState τ} {t : τ}

theorem answer_mem (s : CidState τ) (t : τ) (locked : Bool) (entry : Option Nat) :
    (s.answer t locked entry).mem = s.mem := by
  rw [CidState.answer.eq_def]
  split
  · split <;> rfl
  · dsimp only
    split
    · rfl
    · split <;> rfl

/-- What a step of a thread does to the memory. -/
inductive MemChange (s : CidState τ) (t : τ) (alloc : Option ULongPtr) : CidMem → Prop where
  | same (hpc : (s.pc t).allocates = none) : MemChange s t alloc s.mem
  | allocate {level : ULongPtr} (hpc : (s.pc t).allocates = some level) :
      MemChange s t alloc (s.mem.kphpCidAllocateTable level alloc)
  | linkRoot {level table block : ULongPtr} (hpc : s.pc t = .linkRoot level table block) :
      MemChange s t alloc (s.mem.setSlot block 0 (cidPointer table))
  | publishRoot {level block : ULongPtr} (hpc : s.pc t = .publishRoot level block) :
      MemChange s t alloc { s.mem with table := block ||| level }
  | storeL1 {tableL2 block : ULongPtr} (hpc : s.pc t = .storeL1 tableL2 block) :
      MemChange s t alloc (s.mem.setSlot tableL2 (s.id t / cidMaxL1) block)
  | storeL0 {tableL1 block : ULongPtr} {index offset : Nat}
      (hpc : s.pc t = .storeL0 tableL1 index offset block) :
      MemChange s t alloc (s.mem.setSlot tableL1 index block)

omit [DecidableEq τ] in
theorem MemChange.keep {alloc : Option ULongPtr} {m : CidMem} (hpc : (s.pc t).allocates = none)
    (h : m = s.mem) : MemChange s t alloc m := h ▸ .same hpc

theorem advance_mem (s : CidState τ) (t : τ) (alloc : Option ULongPtr) :
    MemChange s t alloc (s.advance t alloc).mem := by
  rw [CidState.advance]
  cases hpc : s.pc t with
  | lookup locked =>
      refine .keep (hpc ▸ rfl) ?_
      dsimp only
      split
      · split <;> exact answer_mem ..
      · split
        · split
          · exact answer_mem ..
          · rfl
        · split
          · split
            · exact answer_mem ..
            · rfl
          · exact answer_mem ..
  | lookupL2 locked tableL2 =>
      refine .keep (hpc ▸ rfl) ?_
      dsimp only
      split
      · exact answer_mem ..
      · rfl
  | lookupL1 locked tableL1 index offset =>
      refine .keep (hpc ▸ rfl) ?_
      dsimp only
      split <;> exact answer_mem ..
  | allocateRoot level table =>
      have hlevel : (s.pc t).allocates = some level := hpc ▸ rfl
      cases alloc with
      | none => exact .allocate hlevel
      | some block => exact .allocate hlevel
  | allocateL1 tableL2 => exact .allocate (hpc ▸ rfl)
  | allocateL0 tableL1 index offset => exact .allocate (hpc ▸ rfl)
  | linkRoot level table block => exact .linkRoot hpc
  | publishRoot level block => exact .publishRoot hpc
  | storeL1 tableL2 block => exact .storeL1 hpc
  | storeL0 tableL1 index offset block => exact .storeL0 hpc
  | acquire =>
      refine .keep (hpc ▸ rfl) ?_
      dsimp only
      split <;> rfl
  | expand =>
      refine .keep (hpc ▸ rfl) ?_
      dsimp only
      split
      · rfl
      · split <;> rfl
  | levelTwo table =>
      refine .keep (hpc ▸ rfl) ?_
      dsimp only
      split <;> rfl
  | loadL1 tableL2 =>
      refine .keep (hpc ▸ rfl) ?_
      dsimp only
      split <;> rfl
  | loadL0 tableL1 index offset =>
      refine .keep (hpc ▸ rfl) ?_
      dsimp only
      split <;> rfl
  | idle => exact .same (hpc ▸ rfl)
  | release entry => exact .same (hpc ▸ rfl)

omit [DecidableEq τ] in
theorem MemChange.allocated {alloc : Option ULongPtr} {m : CidMem} (h : MemChange s t alloc m)
    {x : ULongPtr × ULongPtr} (hx : x ∈ m.allocated) :
    x ∈ s.mem.allocated ∨ (s.pc t).allocates = some x.2 ∧ alloc = some x.1 := by
  cases h with
  | allocate hpc =>
      cases alloc with
      | none => exact .inl hx
      | some block =>
          rcases List.mem_cons.mp hx with rfl | hold
          · exact .inr ⟨hpc, rfl⟩
          · exact .inl hold
  | _ => exact .inl hx

omit [DecidableEq τ] in
theorem CidInv.within {alloc : Option ULongPtr} {m : CidMem} (h : CidInv s)
    (hwithin : s.mem.Within) (hchange : MemChange s t alloc m)
    (hfresh : ∀ level block, (s.pc t).allocates = some level → alloc = some block →
      s.mem.Fresh level block) : m.Within := by
  cases hchange with
  | same _ => exact hwithin
  | allocate hpc =>
      cases alloc with
      | none => exact hwithin
      | some block => exact hwithin.allocate h.shape (hfresh _ _ hpc rfl)
  | linkRoot hpc => exact hwithin.setSlot _ fun level _ => le_cidBlockSize level
  | publishRoot hpc => exact hwithin
  | storeL1 hpc =>
      have hholding := h.holding t (hpc ▸ rfl)
      rw [hpc] at hholding
      obtain ⟨-, hmissing, hlevel, rfl, -, -⟩ := hholding
      refine hwithin.setSlot _ fun level hmem => ?_
      obtain rfl := h.shape.level_unique hmem (hlevel ▸ h.shape.root)
      have hsize : cidBlockSize cidTableL2 = 512 := rfl
      have hmax : cidMax = 16777216 := rfl
      have hid := hmissing.1
      rw [hsize, div_cidMaxL1]
      omega
  | storeL0 hpc =>
      have hholding := h.holding t (hpc ▸ rfl)
      rw [hpc] at hholding
      obtain ⟨-, -, ⟨hmid, rfl, -⟩, -⟩ := hholding
      refine hwithin.setSlot _ fun level hmem => ?_
      obtain rfl := h.shape.level_unique hmem (h.shape.mid_spec hmid).1
      have hsize : cidBlockSize cidTableL1 = 4096 := rfl
      rw [hsize]
      omega

end

/-! ## References -/

section

variable [DecidableEq τ] [DecidableEq ω]

def CidTable.objects (w : CidTable τ ω) : List ω :=
  (List.range cidMax).filterMap fun id => (w.state.mem.kphpCidLookupEntry (4 * id)).bind w.object

structure CidTableInv (w : CidTable τ ω) : Prop where
  inv : CidInv w.state
  within : w.state.mem.Within
  -- What an entry holds can be looked up.
  found : ∀ block, (block, cidTableL0) ∈ w.state.mem.allocated → ∀ i < cidL0Count,
    w.object (cidEntry block i) ≠ none → ∃ id, w.state.mem.resolve id = some (cidEntry block i)
  references : ∀ object, w.references object = w.objects.count object

omit [DecidableEq τ] [DecidableEq ω] in
theorem CidShape.objects_eq {w : CidTable τ ω} (h : CidShape w.state.mem) :
    w.objects = w.state.mem.entries.filterMap w.object := by
  rw [CidTable.objects, CidMem.entries, List.filterMap_filterMap]
  refine List.filterMap_congr fun id _ => ?_
  rw [h.lookup_eq, kphpCidToId, Nat.mul_div_cancel_left id (by decide)]

omit [DecidableEq τ] in
theorem CidTable.count_apply (references : ω → Int) (object : Option ω) (change : Int) (x : ω) :
    CidTable.count references object change x =
      references x + if object = some x then change else 0 := by
  cases object with
  | none => simp [CidTable.count]
  | some object =>
      by_cases hx : x = object
      · subst hx
        simp [CidTable.count]
      · simp [CidTable.count, hx, Ne.symm hx]

theorem count_filterMap_update {f g : Nat → Option ω} {n i : Nat} (hi : i < n) {new : Option ω}
    (hself : g i = new) (hsame : ∀ j, j ≠ i → g j = f j) (x : ω) :
    (((List.range n).filterMap g).count x : Int) = ((List.range n).filterMap f).count x +
      (if new = some x then 1 else 0) - if f i = some x then 1 else 0 := by
  have hcount : ∀ h : Nat → Option ω, ((List.range n).filterMap h).count x =
      ((List.range n).map h).countP fun a => decide (a = some x) := by
    intro h
    rw [List.count_filterMap, List.countP_map]
    refine List.countP_congr fun j _ => ?_
    simp
  have hget : ((List.range n).map f)[i]? = some (f i) := by simp [hi]
  have hset : ((List.range n).map f).set i new = (List.range n).map g := by
    refine List.ext_getElem (by simp) fun j hj hj' => ?_
    rw [List.getElem_set]
    split
    · next heq =>
        subst heq
        simp [hself]
    · next hne => simp [hsame j (Ne.symm hne)]
  have hcensus := Census.countP_set (p := fun a => decide (a = some x)) hget new
  rw [hset, ← hcount, ← hcount] at hcensus
  by_cases hnew : new = some x <;> by_cases hold : f i = some x <;>
    simp only [hnew, hold, decide_true, decide_false, Bool.toNat_true, Bool.toNat_false, if_true,
      if_false] at hcensus ⊢ <;> omega

theorem CidShape.resolve_entry {m : CidMem} (h : CidShape m) {id entry : Nat}
    (hid : m.resolve id = some entry) :
    id < cidMax ∧ ∃ block i, (block, cidTableL0) ∈ m.allocated ∧ i < cidL0Count ∧
      entry = cidEntry block i := by
  rw [CidMem.resolve] at hid
  split at hid
  · next hlt =>
      obtain ⟨block, hleaf, rfl⟩ := Option.map_eq_some_iff.mp hid
      exact ⟨hlt, block, id % 512, h.leaf_mem hleaf, Nat.mod_lt _ (by decide), rfl⟩
  · cases hid

theorem CidShape.mem_entries {m : CidMem} (h : CidShape m) {id entry : Nat}
    (hid : m.resolve id = some entry) : entry ∈ m.entries := by
  have hlt := (h.resolve_entry hid).1
  rw [CidMem.entries, List.mem_filterMap]
  exact ⟨id, List.mem_range.mpr hlt, hid⟩

namespace CidTableInv

variable {w : CidTable τ ω}

omit [DecidableEq τ] in
theorem grow (h : CidTableInv w) {state : CidState τ} {object : Nat → Option ω}
    (hnext : CidNext w.state state) (hwithin : state.mem.Within)
    (hold : ∀ block, (block, cidTableL0) ∈ w.state.mem.allocated → ∀ i < cidL0Count,
      object (cidEntry block i) = w.object (cidEntry block i))
    (hnew : ∀ block, (block, cidTableL0) ∈ state.mem.allocated →
      (block, cidTableL0) ∉ w.state.mem.allocated → ∀ i < cidL0Count,
        object (cidEntry block i) = none) :
    CidTableInv { w with state := state, object := object } := by
  have hfound : ∀ block, (block, cidTableL0) ∈ state.mem.allocated → ∀ i < cidL0Count,
      object (cidEntry block i) ≠ none → ∃ id, w.state.mem.resolve id = some (cidEntry block i) := by
    intro block hblock i hi hobject
    by_cases hmem : (block, cidTableL0) ∈ w.state.mem.allocated
    · rw [hold block hmem i hi] at hobject
      exact h.found block hmem i hi hobject
    · exact absurd (hnew block hblock hmem i hi) hobject
  have hsame : ∀ id, (state.mem.resolve id).bind object = (w.state.mem.resolve id).bind w.object := by
    intro id
    cases hid : w.state.mem.resolve id with
    | some entry =>
        obtain ⟨-, block, i, hmem, hi, rfl⟩ := h.inv.shape.resolve_entry hid
        rw [hnext.grows.resolve hid]
        exact hold block hmem i hi
    | none =>
        cases hid' : state.mem.resolve id with
        | none => rfl
        | some entry =>
            obtain ⟨-, block, i, hmem, hi, rfl⟩ := hnext.inv.shape.resolve_entry hid'
            by_contra hobject
            obtain ⟨id', hresolve⟩ := hfound block hmem i hi hobject
            obtain rfl := hnext.inv.shape.resolve_injective hid' (hnext.grows.resolve hresolve)
            rw [hid] at hresolve
            cases hresolve
  refine ⟨hnext.inv, hwithin, fun block hblock i hi hobject => ?_, fun x => ?_⟩
  · obtain ⟨id, hid⟩ := hfound block hblock i hi hobject
    exact ⟨id, hnext.grows.resolve hid⟩
  · have hobjects : CidTable.objects { w with state := state, object := object } = w.objects := by
      rw [CidTable.objects, CidTable.objects]
      refine List.filterMap_congr fun id _ => ?_
      rw [h.inv.shape.lookup_eq]
      exact (congrArg (Option.bind · object) (hnext.inv.shape.lookup_eq _)).trans (hsame _)
    rw [hobjects]
    exact h.references x

omit [DecidableEq ω] in
theorem zeroEntries_of_fresh {m : CidMem} {object : Nat → Option ω} {block level b : ULongPtr}
    (hfresh : m.Fresh level block) (hb : (b, cidTableL0) ∈ m.allocated) {i : Nat}
    (hi : i < cidL0Count) :
    zeroEntries object block level (cidEntry b i) = object (cidEntry b i) := by
  have hapart := hfresh.disjoint _ hb
  have hsize : cidBlockSize cidTableL0 = 4096 := rfl
  have hcount : cidL0Count = 512 := rfl
  simp only [hsize] at hapart
  rw [zeroEntries, if_neg]
  rw [cidEntry]
  omega

omit [DecidableEq ω] in
theorem zeroEntries_self {object : Nat → Option ω} {block : ULongPtr} {i : Nat}
    (hi : i < cidL0Count) : zeroEntries object block cidTableL0 (cidEntry block i) = none := by
  have hsize : cidBlockSize cidTableL0 = 4096 := rfl
  have hcount : cidL0Count = 512 := rfl
  rw [zeroEntries, if_pos]
  rw [cidEntry, hsize]
  omega

theorem advance (h : CidTableInv w) (t : τ) (alloc : Option ULongPtr)
    (hfresh : ∀ level block, (w.state.pc t).allocates = some level → alloc = some block →
      w.state.mem.Fresh level block) : CidTableInv (w.advance t alloc) := by
  have hchange := advance_mem w.state t alloc
  refine h.grow (h.inv.advance hfresh) (h.inv.within h.within hchange hfresh) ?_ ?_
  · intro block hblock i hi
    cases hlevel : (w.state.pc t).allocates with
    | none => rfl
    | some level =>
        cases alloc with
        | none => rfl
        | some new => exact zeroEntries_of_fresh (hfresh _ _ hlevel rfl) hblock hi
  · intro block hblock hnot i hi
    rcases hchange.allocated hblock with hmem | ⟨hlevel, rfl⟩
    · exact absurd hmem hnot
    · simp only [hlevel]
      exact zeroEntries_self hi

theorem kphCidGetEntry (h : CidTableInv w) {t : τ} (cid : Nat) (hpc : w.state.pc t = .idle) :
    CidTableInv { w with
      state := { w.state.goto t (.lookup false) with
        call := Function.update w.state.call t ⟨cid, w.state.known cid⟩ } } := by
  have hnext := @CidInv.call _ _ _ _ cid h.inv hpc
  exact h.grow hnext h.within (fun _ _ _ _ => rfl) fun block hblock hnot => absurd hblock hnot

omit [DecidableEq τ] in
theorem kphCidAssignObject (h : CidTableInv w) {r : CidReturn} {entry : Nat}
    (hr : r ∈ w.state.returned) (hentry : r.entry = some entry) (object : Option ω) :
    CidTableInv (w.kphCidAssignObject entry object) := by
  have hid := (h.inv.returned r hr).1 entry hentry
  generalize kphpCidToId r.call.cid = id at hid
  have hlookup : ∀ id', w.state.mem.kphpCidLookupEntry (4 * id') = w.state.mem.resolve id' := by
    intro id'
    rw [h.inv.shape.lookup_eq, kphpCidToId, Nat.mul_div_cancel_left id' (by decide)]
  refine ⟨h.inv, h.within, fun block hblock i hi hobject => ?_, fun x => ?_⟩
  · by_cases heq : cidEntry block i = entry
    · exact ⟨id, heq ▸ hid⟩
    · have hsame : (w.kphCidAssignObject entry object).object (cidEntry block i) =
          w.object (cidEntry block i) := Function.update_of_ne heq ..
      exact h.found block hblock i hi (hsame ▸ hobject)
  · have hself : (w.state.mem.kphpCidLookupEntry (4 * id)).bind
        (Function.update w.object entry object) = object := by
      rw [hlookup, hid]
      exact Function.update_self ..
    have hother : ∀ j, j ≠ id →
        (w.state.mem.kphpCidLookupEntry (4 * j)).bind (Function.update w.object entry object) =
          (w.state.mem.kphpCidLookupEntry (4 * j)).bind w.object := by
      intro j hj
      rw [hlookup]
      cases hresolve : w.state.mem.resolve j with
      | none => rfl
      | some e =>
          refine Function.update_of_ne (fun heq => hj ?_) ..
          exact h.inv.shape.resolve_injective hresolve (heq ▸ hid)
    have hcount := count_filterMap_update (h.inv.shape.resolve_entry hid).1 hself hother x
    have hold : (w.state.mem.kphpCidLookupEntry (4 * id)).bind w.object = w.object entry := by
      rw [hlookup, hid]
      rfl
    rw [hold] at hcount
    have hreferences := h.references x
    show CidTable.count (CidTable.count w.references object 1) (w.object entry) (-1) x = _
    rw [CidTable.count_apply, CidTable.count_apply, hreferences]
    refine Eq.trans ?_ hcount.symm
    show (w.objects.count x : Int) + _ + _ = (w.objects.count x : Int) + _ - _
    split <;> split <;> omega

theorem step {w' : CidTable τ ω} (h : CidTableInv w) (hstep : CidTableStep w w') :
    CidTableInv w' := by
  cases hstep with
  | advance t alloc hfresh => exact h.advance t alloc hfresh
  | kphCidGetEntry t cid hpc => exact h.kphCidGetEntry cid hpc
  | kphCidAssignObject r entry object hreturned hentry =>
      exact h.kphCidAssignObject hreturned hentry object

theorem created {block : ULongPtr} (hnull : block ≠ 0) (haligned : block &&& cidTableLevelMask = 0)
    (memory : Nat → Option ω) :
    CidTableInv (CidTable.kphCidTableCreate block memory : CidTable τ ω) := by
  have hinv : CidInv (CidState.created block : CidState τ) := cidInv_created hnull haligned
  have hempty : ∀ b, (b, cidTableL0) ∈ (CidState.created block : CidState τ).mem.allocated →
      ∀ i < cidL0Count, zeroEntries memory block cidTableL0 (cidEntry b i) = none := by
    intro b hb i hi
    obtain ⟨rfl, -⟩ := Prod.mk.inj (List.mem_singleton.mp hb)
    exact zeroEntries_self hi
  have hnone : (CidTable.kphCidTableCreate block memory : CidTable τ ω).objects = [] := by
    rw [CidTable.objects]
    refine List.filterMap_eq_nil_iff.mpr fun id _ => ?_
    have hlookup := hinv.shape.lookup_eq (4 * id)
    cases hresolve : (CidState.created block : CidState τ).mem.resolve (kphpCidToId (4 * id)) with
    | none => exact congrArg (Option.bind · _) (hlookup.trans hresolve)
    | some entry =>
        obtain ⟨-, b, i, hb, hi, rfl⟩ := hinv.shape.resolve_entry hresolve
        exact (congrArg (Option.bind · _) (hlookup.trans hresolve)).trans (hempty b hb i hi)
  refine ⟨hinv, fun b i level _ hne => absurd rfl hne, fun b hb i hi hobject => ?_, fun x => ?_⟩
  · exact absurd (hempty b hb i hi) hobject
  · rw [hnone]
    rfl

theorem run {w' : CidTable τ ω} (h : CidTableInv w) (hrun : Relation.ReflTransGen CidTableStep w w') :
    CidTableInv w' := by
  induction hrun with
  | refl => exact h
  | tail _ hstep ih => exact ih.step hstep

end CidTableInv

omit [DecidableEq τ] in
theorem count_ranDown (objects : List ω) (object : ω) :
    (objects.flatMap ranDown).count (.kphDereferenceObject object) = objects.count object := by
  induction objects with
  | nil => rfl
  | cons x l ih =>
      by_cases hx : x = object
      · subst hx
        simp [ranDown, ih]
      · simp [ranDown, ih, hx]

omit [DecidableEq τ] [DecidableEq ω] in
theorem CidShape.enumerate_eq {w : CidTable τ ω} (h : CidShape w.state.mem)
    (callback : σ → ω → σ × Bool) (parameter : σ) :
    w.state.mem.kphCidEnumerate callback ⟨w.object, [], parameter⟩ =
      ⟨w.object, (visitUntil callback parameter w.objects).1.flatMap enumerated,
        (visitUntil callback parameter w.objects).2⟩ := by
  rw [CidMem.kphCidEnumerate, kphpCidEnumerate_eq h, untilStop_enumerate, h.objects_eq,
    List.nil_append]

omit [DecidableEq τ] [DecidableEq ω] in
theorem CidShape.rundown_eq {w : CidTable τ ω} (h : CidShape w.state.mem)
    (callback : σ → ω → σ) (parameter : σ) :
    w.state.mem.kphCidRundown callback ⟨w.object, [], parameter⟩ =
      ⟨fun entry => if entry ∈ w.state.mem.entries then none else w.object entry,
        w.objects.flatMap ranDown, w.objects.foldl callback parameter⟩ := by
  rw [CidMem.kphCidRundown, kphpCidEnumerate_eq h, untilStop_rundown callback h.entries_nodup,
    h.objects_eq, List.nil_append]

/-- A table that calls of `KphCidGetEntry` and `KphCidAssignObject` have built, whatever
allocations failed: a lookup finds the entry that was returned for a CID; an enumeration
references each object, calls the callback and dereferences the object, in the order of the
CIDs and until the callback answers `TRUE`; a rundown calls the callback for each object and
releases each reference that the table has, and leaves all entries empty; and the deletion
frees each block once. -/
theorem kphCid_traversals {block : ULongPtr} (hnull : block ≠ 0)
    (haligned : block &&& cidTableLevelMask = 0) {memory : Nat → Option ω} {w : CidTable τ ω}
    (hrun : Relation.ReflTransGen CidTableStep (CidTable.kphCidTableCreate block memory) w)
    (hidle : ∀ t, w.state.pc t = .idle) :
    (∀ r ∈ w.state.returned, ∀ entry, r.entry = some entry →
      w.state.mem.kphpCidLookupEntry r.call.cid = some entry) ∧
    (∀ (σ : Type) (callback : σ → ω → σ × Bool) (parameter : σ),
      w.state.mem.kphCidEnumerate callback ⟨w.object, [], parameter⟩ =
        ⟨w.object, (visitUntil callback parameter w.objects).1.flatMap enumerated,
          (visitUntil callback parameter w.objects).2⟩) ∧
    (∀ (σ : Type) (callback : σ → ω → σ) (parameter : σ),
      (w.state.mem.kphCidRundown callback ⟨w.object, [], parameter⟩).events =
          w.objects.flatMap ranDown ∧
        (w.state.mem.kphCidRundown callback ⟨w.object, [], parameter⟩).parameter =
          w.objects.foldl callback parameter ∧
        (∀ cid entry, w.state.mem.kphpCidLookupEntry cid = some entry →
          (w.state.mem.kphCidRundown callback ⟨w.object, [], parameter⟩).object entry = none) ∧
        ∀ object, w.references object =
          (w.state.mem.kphCidRundown callback ⟨w.object, [], parameter⟩).events.count
            (.kphDereferenceObject object)) ∧
    w.state.mem.kphCidTableDelete.Nodup ∧
    ∀ b, b ∈ w.state.mem.kphCidTableDelete ↔ ∃ level, (b, level) ∈ w.state.mem.allocated := by
  have h := (CidTableInv.created (τ := τ) hnull haligned memory).run hrun
  have hshape := h.inv.shape
  refine ⟨fun r hr entry hentry => ?_, fun σ callback parameter => ?_,
    fun σ callback parameter => ?_, ?_, fun b => ⟨hshape.allocated_of_freed, ?_⟩⟩
  · rw [hshape.lookup_eq]
    exact (h.inv.returned r hr).1 entry hentry
  · exact hshape.enumerate_eq callback parameter
  · rw [hshape.rundown_eq callback parameter]
    dsimp only
    refine ⟨rfl, rfl, fun cid entry hentry => ?_, fun object => ?_⟩
    · rw [hshape.lookup_eq] at hentry
      simp only [hshape.mem_entries hentry, if_true]
    · rw [count_ranDown]
      exact h.references object
  · refine hshape.kphCidTableDelete_nodup (h.inv.quiet ?_)
    by_contra hlock
    obtain ⟨t, ht⟩ := Option.ne_none_iff_exists'.mp hlock
    have hlocked := (h.inv.owner t).mpr ht
    rw [hidle t] at hlocked
    cases hlocked
  · rintro ⟨level, hb⟩
    rcases h.inv.reach _ hb with hreach | ⟨t, ht⟩
    · exact hshape.freed_of_reaches h.within hreach
    · rw [hidle t] at ht
      cases ht

end

/-- An object is assigned to the entry of a CID in the first block. -/
def oneObject : CidTable Unit Nat :=
  let table : CidTable Unit Nat := .kphCidTableCreate 0x1000 fun _ => some 9
  let called := { table with state := calling table.state 4 }
  (called.advance () none).kphCidAssignObject (0x1000 + 8) (some 7)

theorem oneObject_run :
    Relation.ReflTransGen CidTableStep (CidTable.kphCidTableCreate 0x1000 fun _ => some 9)
      oneObject := by
  refine .head (.kphCidGetEntry () 4 rfl) (.head (.advance () none fun _ _ _ hno => ?_)
    (.single (.kphCidAssignObject ⟨⟨4, none⟩, some (0x1000 + 8)⟩ (0x1000 + 8) (some 7) ?_ rfl)))
  · cases hno
  · exact List.mem_singleton.mpr rfl

theorem kphCid_traversals_one :
    oneObject.state.mem.kphCidTableDelete = [0x1000] ∧
      oneObject.state.mem.kphCidTableDelete.Nodup ∧ oneObject.references 7 = 1 := by
  have h := kphCid_traversals (w := oneObject) (by decide) (by decide) oneObject_run fun _ => rfl
  exact ⟨rfl, h.2.2.2.1, rfl⟩

end SystemInformer.Driver
