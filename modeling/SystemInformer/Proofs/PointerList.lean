import SystemInformer.Lib.Links
import SystemInformer.PhLib.PointerList

/-!
# Pointer lists over whole runs

Every slot below `NextEntry` is either live or on the free chain, and the low bit tells which. A
new slot is only taken when the chain is empty, so `NextEntry` is never more than the most
pointers that were in the list at once; below 2^31 of them the capacity can be doubled and no
index is the -1 that ends the chain. The encoding of a free link is undone for every index and
for -1 alike.
-/

namespace SystemInformer.PhLib

open PhPointerList

/-! ## Handles and free links -/

theorem decode_encode (index : ULong) :
    phpDecodePointerListIndex (phpEncodePointerListIndex index) = index := by
  rw [phpDecodePointerListIndex, phpEncodePointerListIndex]
  refine BitVec.eq_of_getLsbD_eq fun k hk => ?_
  have hsign : 1 + k < 64 := by omega
  have hwide : k < 64 := by omega
  rw [BitVec.getLsbD_setWidth, BitVec.getLsbD_sshiftRight]
  simp [hk, hsign, hwide]

theorem isListPointerValid_encode (index : ULong) :
    isListPointerValid (phpEncodePointerListIndex index) = false := by
  rw [isListPointerValid, phpEncodePointerListIndex]
  refine decide_eq_false fun h => ?_
  have hbit := congrArg (fun v => v.getLsbD 0) h
  simp at hbit

@[simp] theorem handleToIndex_indexToHandle (index : ULong) :
    phpPointerListHandleToIndex (phpPointerListIndexToHandle index) = index := by
  rw [phpPointerListHandleToIndex, phpPointerListIndexToHandle,
    BitVec.setWidth_setWidth_of_le _ (by decide)]
  simp

theorem indexToHandle_inj {i j : ULong}
    (h : phpPointerListIndexToHandle i = phpPointerListIndexToHandle j) : i = j := by
  rw [← handleToIndex_indexToHandle i, h, handleToIndex_indexToHandle]

/-! ## Slots -/

def entry (index : ULong) : Option ULong := if index = ulongMax then none else some index

variable {cell : ULong → Option ULongPtr} {nextEntry freeEntry index : ULong}
  {live : List (ULongPtr × ULongPtr)} {free : List ULong}

def freeLink (cell : ULong → Option ULongPtr) (index : ULong) : Option ULong :=
  (cell index).bind fun value => entry (phpDecodePointerListIndex value)

/-- A slot that was used and holds no pointer. -/
def IsFree (cell : ULong → Option ULongPtr) (nextEntry index : ULong) : Prop :=
  index < nextEntry ∧ ∃ value, cell index = some value ∧ isListPointerValid value = false

def IsLive (cell : ULong → Option ULongPtr) (nextEntry index : ULong) (pointer : ULongPtr) : Prop :=
  index < nextEntry ∧ cell index = some pointer ∧ isListPointerValid pointer = true

/-- The pointers in the slots are `live`, each with its handle, and the free slots are chained up
as `free`. -/
structure Slots (cell : ULong → Option ULongPtr) (nextEntry freeEntry : ULong)
    (live : List (ULongPtr × ULongPtr)) (free : List ULong) : Prop where
  small : nextEntry.toNat < 2 ^ 31
  chain : Links.Chain (freeLink cell) (entry freeEntry) free
  free_nodup : free.Nodup
  free_iff : ∀ i, i ∈ free ↔ IsFree cell nextEntry i
  live_nodup : live.Nodup
  live_iff : ∀ p h, (p, h) ∈ live ↔
    ∃ i, IsLive cell nextEntry i p ∧ h = phpPointerListIndexToHandle i
  total : live.length + free.length = nextEntry.toNat
  written : ∀ i < nextEntry, ∃ value, cell i = some value

namespace Slots

theorem empty : Slots (fun _ => none) 0 ulongMax [] [] := by
  have hnone : ∀ i : ULong, ¬ i < 0 := fun i hi => Nat.not_lt_zero _ (BitVec.lt_def.mp hi)
  refine ⟨by decide, .nil, List.nodup_nil, fun i => ?_, List.nodup_nil, fun p h => ?_, rfl,
    fun i hi => absurd hi (hnone i)⟩
  · exact ⟨fun hi => absurd hi List.not_mem_nil, fun hi => absurd hi.1 (hnone i)⟩
  · refine ⟨fun hp => absurd hp List.not_mem_nil, ?_⟩
    rintro ⟨i, hi, -⟩
    exact absurd hi.1 (hnone i)

theorem ne_ulongMax (h : Slots cell nextEntry freeEntry live free) (hi : index < nextEntry) :
    index ≠ ulongMax := by
  rintro rfl
  have hlt := BitVec.lt_def.mp hi
  have := h.small
  rw [ulongMax, BitVec.toNat_allOnes] at hlt
  omega

theorem not_free_of_live (h : Slots cell nextEntry freeEntry live free) {p : ULongPtr}
    (hi : IsLive cell nextEntry index p) : index ∉ free := by
  intro hmem
  obtain ⟨-, value, hvalue, hvalid⟩ := (h.free_iff index).mp hmem
  rw [hi.2.1, Option.some.injEq] at hvalue
  rw [← hvalue, hi.2.2] at hvalid
  cases hvalid

theorem handle_not_live (h : Slots cell nextEntry freeEntry live free) {p : ULongPtr}
    (hindex : ∀ p, ¬ IsLive cell nextEntry index p) :
    (p, phpPointerListIndexToHandle index) ∉ live := by
  intro hmem
  obtain ⟨i, hi, hhandle⟩ := (h.live_iff _ _).mp hmem
  rw [← indexToHandle_inj hhandle] at hi
  exact hindex p hi

theorem handles_nodup (h : Slots cell nextEntry freeEntry live free) :
    (live.map Prod.snd).Nodup := by
  refine List.Nodup.map_on (fun x hx y hy hxy => ?_) h.live_nodup
  obtain ⟨i, hi, hxi⟩ := (h.live_iff x.1 x.2).mp hx
  obtain ⟨j, hj, hyj⟩ := (h.live_iff y.1 y.2).mp hy
  rw [hxi, hyj] at hxy
  obtain rfl := indexToHandle_inj hxy
  have hsame := hi.2.1.symm.trans hj.2.1
  rw [Option.some.injEq] at hsame
  exact Prod.ext hsame (hxi.trans hyj.symm)

theorem written_update (h : Slots cell nextEntry freeEntry live free) {i : ULong}
    {value : ULongPtr} (hi : i ≠ index → i < nextEntry) :
    ∃ value', Function.update cell index (some value) i = some value' := by
  by_cases hne : i = index
  · exact ⟨value, by rw [hne, Function.update_self]⟩
  · rw [Function.update_of_ne hne]
    exact h.written i (hi hne)

theorem live_iff_update (h : Slots cell nextEntry freeEntry live free) {pointer : ULongPtr}
    (hpointer : isListPointerValid pointer = true) {next : ULong}
    (hindex : ∀ p, ¬ IsLive cell nextEntry index p) (hbelow : index < next)
    (hothers : ∀ i, i ≠ index → (i < next ↔ i < nextEntry)) (p k : ULongPtr) :
    (p, k) ∈ (pointer, phpPointerListIndexToHandle index) :: live ↔
      ∃ i, IsLive (Function.update cell index (some pointer)) next i p ∧
        k = phpPointerListIndexToHandle i := by
  rw [List.mem_cons, h.live_iff]
  constructor
  · rintro (heq | ⟨i, hi, hk⟩)
    · obtain ⟨rfl, rfl⟩ := Prod.mk.inj heq
      exact ⟨index, ⟨hbelow, Function.update_self .., hpointer⟩, rfl⟩
    · have hne : i ≠ index := fun heq => hindex p (heq ▸ hi)
      refine ⟨i, ⟨(hothers i hne).mpr hi.1, ?_, hi.2.2⟩, hk⟩
      rw [Function.update_of_ne hne]
      exact hi.2.1
  · rintro ⟨i, ⟨hi, hp, hvalid⟩, hk⟩
    by_cases hne : i = index
    · rw [hne, Function.update_self, Option.some.injEq] at hp
      exact .inl (by rw [hk, hp, hne])
    · rw [Function.update_of_ne hne] at hp
      exact .inr ⟨i, ⟨(hothers i hne).mp hi, hp, hvalid⟩, hk⟩

theorem fill {old : ULongPtr} {rest : List ULong} {pointer : ULongPtr}
    (h : Slots cell nextEntry index live (index :: rest)) (hold : cell index = some old)
    (hpointer : isListPointerValid pointer = true) :
    Slots (Function.update cell index (some pointer)) nextEntry (phpDecodePointerListIndex old)
      ((pointer, phpPointerListIndexToHandle index) :: live) rest := by
  obtain ⟨hbelow, -⟩ := (h.free_iff index).mp List.mem_cons_self
  obtain ⟨hnotin, hnodup⟩ := List.nodup_cons.mp h.free_nodup
  have hindex : ∀ p, ¬ IsLive cell nextEntry index p := fun p hp =>
    h.not_free_of_live hp List.mem_cons_self
  have hchain := h.chain
  rw [entry, if_neg (h.ne_ulongMax hbelow)] at hchain
  have hlink : freeLink cell index = entry (phpDecodePointerListIndex old) := by
    rw [freeLink, hold]
    rfl
  refine ⟨h.small, ?_, hnodup, fun i => ?_, List.nodup_cons.mpr ⟨h.handle_not_live hindex,
    h.live_nodup⟩, h.live_iff_update hpointer hindex hbelow fun i _ => Iff.rfl, ?_,
    fun i hi => h.written_update fun _ => hi⟩
  · cases hchain with
    | cons hrest =>
        rw [hlink] at hrest
        refine hrest.congr fun i hi => ?_
        have hne : i ≠ index := fun heq => hnotin (heq ▸ hi)
        rw [freeLink, Function.update_of_ne hne]
        rfl
  · by_cases hi : i = index
    · rw [hi]
      refine ⟨fun hmem => absurd hmem hnotin, ?_⟩
      rintro ⟨-, value, hvalue, hvalid⟩
      rw [Function.update_self, Option.some.injEq] at hvalue
      rw [← hvalue, hpointer] at hvalid
      cases hvalid
    · rw [IsFree, Function.update_of_ne hi]
      refine Iff.trans ?_ (h.free_iff i)
      rw [List.mem_cons, or_iff_right hi]
  · have := h.total
    simp only [List.length_cons] at this ⊢
    omega

theorem extend {pointer : ULongPtr} (h : Slots cell nextEntry ulongMax live free)
    (hpointer : isListPointerValid pointer = true) (hlive : live.length + 1 < 2 ^ 31) :
    Slots (Function.update cell nextEntry (some pointer)) (nextEntry + 1) ulongMax
      ((pointer, phpPointerListIndexToHandle nextEntry) :: live) [] := by
  have hchain := h.chain
  rw [entry, if_pos rfl] at hchain
  cases hchain
  have htotal := h.total
  rw [List.length_nil, Nat.add_zero] at htotal
  have hnext : (nextEntry + 1).toNat = nextEntry.toNat + 1 := by
    rw [BitVec.toNat_add]
    exact Nat.mod_eq_of_lt (by simp; omega)
  have hindex : ∀ p, ¬ IsLive cell nextEntry nextEntry p := fun p hp =>
    absurd (BitVec.lt_def.mp hp.1) (Nat.lt_irrefl _)
  have hothers : ∀ i, i ≠ nextEntry → (i < nextEntry + 1 ↔ i < nextEntry) := by
    intro i hi
    have hne : i.toNat ≠ nextEntry.toNat := fun heq => hi (BitVec.eq_of_toNat_eq heq)
    rw [BitVec.lt_def, BitVec.lt_def, hnext]
    omega
  refine ⟨by omega, by rw [entry, if_pos rfl]; exact .nil, List.nodup_nil, fun i => ?_,
    List.nodup_cons.mpr ⟨h.handle_not_live hindex, h.live_nodup⟩,
    h.live_iff_update hpointer hindex (BitVec.lt_def.mpr (by omega)) hothers, ?_,
    fun i hi => h.written_update fun hne => (hothers i hne).mp hi⟩
  · refine ⟨fun hmem => absurd hmem List.not_mem_nil, ?_⟩
    rintro ⟨hi, value, hvalue, hvalid⟩
    by_cases hne : i = nextEntry
    · rw [hne, Function.update_self, Option.some.injEq] at hvalue
      rw [← hvalue, hpointer] at hvalid
      cases hvalid
    · rw [Function.update_of_ne hne] at hvalue
      exact absurd ((h.free_iff i).mpr ⟨(hothers i hne).mp hi, value, hvalue, hvalid⟩)
        List.not_mem_nil
  · rw [List.length_cons, List.length_nil]
    omega

theorem release (h : Slots cell nextEntry freeEntry live free) {p : ULongPtr}
    (hlive : IsLive cell nextEntry index p) :
    Slots (Function.update cell index (some (phpEncodePointerListIndex freeEntry))) nextEntry
      index (live.erase (p, phpPointerListIndexToHandle index)) (index :: free) := by
  have hnotin := h.not_free_of_live hlive
  have hmem : (p, phpPointerListIndexToHandle index) ∈ live :=
    (h.live_iff _ _).mpr ⟨index, hlive, rfl⟩
  have hencoded := isListPointerValid_encode freeEntry
  refine ⟨h.small, ?_, List.nodup_cons.mpr ⟨hnotin, h.free_nodup⟩, fun i => ?_,
    h.live_nodup.erase _, fun q k => ?_, ?_, fun i hi => h.written_update fun _ => hi⟩
  · rw [entry, if_neg (h.ne_ulongMax hlive.1)]
    refine .cons ?_
    have hlink : freeLink (Function.update cell index
        (some (phpEncodePointerListIndex freeEntry))) index = entry freeEntry := by
      rw [freeLink, Function.update_self, Option.bind_some, decode_encode]
    rw [hlink]
    refine h.chain.congr fun i hi => ?_
    have hne : i ≠ index := fun heq => hnotin (heq ▸ hi)
    rw [freeLink, Function.update_of_ne hne]
    rfl
  · by_cases hi : i = index
    · rw [hi]
      exact ⟨fun _ => ⟨hlive.1, _, Function.update_self .., hencoded⟩,
        fun _ => List.mem_cons_self⟩
    · rw [IsFree, Function.update_of_ne hi, List.mem_cons, or_iff_right hi]
      exact h.free_iff i
  · rw [h.live_nodup.mem_erase_iff, h.live_iff]
    constructor
    · rintro ⟨hne, i, hi, hk⟩
      have hni : i ≠ index := by
        rintro rfl
        have hq := hi.2.1.symm.trans hlive.2.1
        rw [Option.some.injEq] at hq
        exact hne (by rw [hq, hk])
      refine ⟨i, ⟨hi.1, ?_, hi.2.2⟩, hk⟩
      rw [Function.update_of_ne hni]
      exact hi.2.1
    · rintro ⟨i, ⟨hi, hq, hvalid⟩, hk⟩
      have hni : i ≠ index := by
        rintro rfl
        rw [Function.update_self, Option.some.injEq] at hq
        rw [← hq, hencoded] at hvalid
        cases hvalid
      rw [Function.update_of_ne hni] at hq
      refine ⟨fun heq => hni ?_, i, ⟨hi, hq, hvalid⟩, hk⟩
      exact indexToHandle_inj (hk.symm.trans (Prod.mk.inj heq).2)
  · have := h.total
    have hpos := List.length_pos_of_mem hmem
    rw [List.length_erase_of_mem hmem, List.length_cons]
    omega

end Slots

/-! ## Operations -/

/-- The array has its size and holds the slots. -/
structure PointerListInvariant (list : PhPointerList) (live : List (ULongPtr × ULongPtr))
    (free : List ULong) : Prop where
  size : list.items.length = list.allocatedCount.toNat
  capacity : 0 < list.allocatedCount.toNat
  within : list.nextEntry.toNat ≤ list.allocatedCount.toNat
  slots : Slots list.item list.nextEntry list.freeEntry live free
  count : list.count.toNat = live.length

theorem invariant_create (initialCapacity : ULong) :
    PointerListInvariant (phCreatePointerList initialCapacity) [] [] := by
  have hcapacity : 0 < (if initialCapacity = 0 then 1 else initialCapacity).toNat := by
    split
    · decide
    · next hne =>
        exact Nat.pos_of_ne_zero fun hz => hne (BitVec.eq_of_toNat_eq hz)
  have hitem : (phCreatePointerList initialCapacity).item = fun _ => none := by
    funext i
    obtain ⟨n, hn⟩ : ∃ n, (phCreatePointerList initialCapacity).items = List.replicate n none :=
      ⟨_, rfl⟩
    rw [item, hn, List.getElem?_replicate]
    split
    · rfl
    · rfl
  refine ⟨List.length_replicate, hcapacity, Nat.zero_le _, ?_, rfl⟩
  rw [hitem]
  exact Slots.empty

variable {list : PhPointerList}

theorem setItem_spec (value : ULongPtr) (hin : index.toNat < list.items.length) :
    ∃ items, list.setItem index value = some { list with items } ∧
      items.length = list.items.length ∧
      { list with items }.item = Function.update list.item index (some value) := by
  have hfits : index.toNat + [some value].length ≤ list.items.length := by
    rw [List.length_singleton]
    omega
  refine ⟨_, ?_, Cells.length_overlay_of_le hfits, ?_⟩
  · rw [setItem, Cells.write, if_pos hfits]
    rfl
  · funext j
    rw [item, Cells.getElem?_overlay_of_le hfits, List.length_singleton]
    by_cases hj : j = index
    · rw [if_pos (by rw [hj]; omega), hj, Nat.sub_self, Function.update_self]
      rfl
    · have hne : j.toNat ≠ index.toNat := fun heq => hj (BitVec.eq_of_toNat_eq heq)
      rw [if_neg (by omega), Function.update_of_ne hj]
      rfl

theorem item_resize {n : ULong} (hn : list.items.length ≤ n.toNat) :
    { list with allocatedCount := n, items := Cells.resize list.items n.toNat }.item =
      list.item := by
  funext i
  rw [item, item, Cells.resize, List.take_of_length_le hn]
  by_cases hi : i.toNat < list.items.length
  · rw [List.getElem?_append_left hi]
  · rw [List.getElem?_append_right (by omega), List.getElem?_replicate,
      List.getElem?_eq_none (by omega : list.items.length ≤ i.toNat)]
    split <;> rfl

namespace PointerListInvariant

theorem index_lt (h : PointerListInvariant list live free) (hi : index < list.nextEntry) :
    index.toNat < list.items.length := by
  have hlt := BitVec.lt_def.mp hi
  have := h.within
  rw [h.size]
  omega

theorem count_succ (h : PointerListInvariant list live free) (hlive : live.length + 1 < 2 ^ 31)
    (entry : ULongPtr × ULongPtr) : (list.count + 1).toNat = (entry :: live).length := by
  rw [BitVec.toNat_add, h.count, List.length_cons]
  exact Nat.mod_eq_of_lt (by simp; omega)

theorem add (h : PointerListInvariant list live free) {pointer : ULongPtr}
    (hpointer : isListPointerValid pointer = true) (hlive : live.length + 1 < 2 ^ 31) :
    ∃ handle list' free', list.phAddItemPointerList pointer = some (handle, list') ∧
      PointerListInvariant list' ((pointer, handle) :: live) free' := by
  have hslots := h.slots
  by_cases hentry : list.freeEntry = ulongMax
  · -- The next slot, for which there is room after the capacity was doubled.
    obtain ⟨grown, hgrown, hsize, hcapacity, hroom, hitem, hsame⟩ : ∃ grown : PhPointerList,
        (if list.nextEntry = list.allocatedCount then
          { list with
            allocatedCount := list.allocatedCount * 2
            items := Cells.resize list.items (list.allocatedCount * 2).toNat } else list) = grown ∧
        grown.items.length = grown.allocatedCount.toNat ∧ 0 < grown.allocatedCount.toNat ∧
        list.nextEntry.toNat < grown.allocatedCount.toNat ∧ grown.item = list.item ∧
        (grown.count, grown.freeEntry, grown.nextEntry) =
          (list.count, list.freeEntry, list.nextEntry) := by
      have hsmall := hslots.small
      have hpos := h.capacity
      by_cases hfull : list.nextEntry = list.allocatedCount
      · have hdouble : (list.allocatedCount * 2).toNat = list.allocatedCount.toNat * 2 := by
          rw [BitVec.toNat_mul]
          rw [hfull] at hsmall
          exact Nat.mod_eq_of_lt (by simp; omega)
        refine ⟨_, if_pos hfull, Cells.length_resize, ?_, ?_, item_resize ?_, rfl⟩
        · rw [hdouble]
          omega
        · rw [hdouble, hfull]
          omega
        · rw [hdouble, h.size]
          omega
      · have hne : list.nextEntry.toNat ≠ list.allocatedCount.toNat := fun heq =>
          hfull (BitVec.eq_of_toNat_eq heq)
        have := h.within
        exact ⟨list, if_neg hfull, h.size, hpos, by omega, rfl, rfl⟩
    obtain ⟨hcount, hfree, hnext⟩ := Prod.mk.inj hsame |>.imp_right Prod.mk.inj
    have hin : list.nextEntry.toNat < grown.items.length := by omega
    obtain ⟨items, hset, hlength, hcells⟩ := setItem_spec pointer hin
    have hnext' : (list.nextEntry + 1).toNat = list.nextEntry.toNat + 1 := by
      have := hslots.small
      rw [BitVec.toNat_add]
      exact Nat.mod_eq_of_lt (by simp; omega)
    rw [hentry] at hslots
    refine ⟨phpPointerListIndexToHandle list.nextEntry,
      { grown with nextEntry := list.nextEntry + 1, count := grown.count + 1, items }, [], ?_, ?_⟩
    · rw [phAddItemPointerList, if_neg (by rw [hentry]; simp), hgrown]
      simp only [hnext, hset, Option.bind_eq_bind, Option.bind_some]
    · refine ⟨hlength.trans hsize, hcapacity, ?_, ?_, ?_⟩
      · show (list.nextEntry + 1).toNat ≤ grown.allocatedCount.toNat
        omega
      · show Slots { grown with items }.item (list.nextEntry + 1) grown.freeEntry _ _
        rw [hcells, hitem, hfree, hentry]
        exact hslots.extend hpointer hlive
      · show (grown.count + 1).toNat = _
        rw [hcount]
        exact h.count_succ hlive _
  · -- The first slot of the free chain.
    have hchain := hslots.chain
    rw [entry, if_neg hentry] at hchain
    cases free with
    | nil => cases hchain
    | cons first rest =>
        have hfirst : first = list.freeEntry := by
          cases hchain
          rfl
        rw [hfirst] at hslots
        obtain ⟨hbelow, old, hold, -⟩ := (hslots.free_iff _).mp List.mem_cons_self
        obtain ⟨items, hset, hlength, hcells⟩ := setItem_spec pointer (h.index_lt hbelow)
        refine ⟨phpPointerListIndexToHandle list.freeEntry,
          { list with
            freeEntry := phpDecodePointerListIndex old
            count := list.count + 1
            items }, rest, ?_, ?_⟩
        · rw [phAddItemPointerList, if_pos hentry]
          simp only [hold, hset, Option.bind_eq_bind, Option.bind_some]
        · refine ⟨hlength.trans h.size, h.capacity, h.within, ?_, h.count_succ hlive _⟩
          show Slots { list with items }.item list.nextEntry _ _ _
          rw [hcells]
          exact hslots.fill hold hpointer

theorem remove (h : PointerListInvariant list live free) {p handle : ULongPtr}
    (hmem : (p, handle) ∈ live) :
    ∃ list' free', list.phRemoveItemPointerList handle = some list' ∧
      PointerListInvariant list' (live.erase (p, handle)) free' := by
  obtain ⟨index, hindex, rfl⟩ := (h.slots.live_iff _ _).mp hmem
  obtain ⟨items, hset, hlength, hcells⟩ := setItem_spec
    (phpEncodePointerListIndex list.freeEntry) (h.index_lt hindex.1)
  refine ⟨{ list with freeEntry := index, count := list.count - 1, items }, index :: free,
    ?_, ?_⟩
  · rw [phRemoveItemPointerList, handleToIndex_indexToHandle]
    simp only [hset, Option.bind_eq_bind, Option.bind_some]
  · refine ⟨hlength.trans h.size, h.capacity, h.within, ?_, ?_⟩
    · show Slots { list with items }.item list.nextEntry index _ _
      rw [hcells]
      exact h.slots.release hindex
    · have hpos := List.length_pos_of_mem hmem
      have hone : (1 : ULong) ≤ list.count := by
        rw [BitVec.le_def, h.count]
        exact hpos
      show (list.count - 1).toNat = _
      rw [BitVec.toNat_sub_of_le hone, h.count, List.length_erase_of_mem hmem]
      rfl

end PointerListInvariant

/-! ## Enumeration -/

/-- The pairs that calls of `PhEnumPointerListEx` yield from a key on, until one returns false. -/
inductive Enumerates (list : PhPointerList) : ULong → List (ULongPtr × ULongPtr) → Prop where
  | done {key key' : ULong} : list.phEnumPointerListEx key = some (key', none) →
      Enumerates list key []
  | next {key key' : ULong} {pair : ULongPtr × ULongPtr} {rest : List (ULongPtr × ULongPtr)} :
      list.phEnumPointerListEx key = some (key', some pair) → Enumerates list key' rest →
      Enumerates list key (pair :: rest)

theorem Enumerates.skip {key key' : ULong} {pairs : List (ULongPtr × ULongPtr)}
    (h : Enumerates list key' pairs)
    (hskip : list.phEnumPointerListEx key = list.phEnumPointerListEx key') :
    Enumerates list key pairs := by
  cases h with
  | done hrun => exact .done (hskip.trans hrun)
  | next hrun hrest => exact .next (hskip.trans hrun) hrest

theorem enumerates_from (hwritten : ∀ i < list.nextEntry, ∃ value, list.item i = some value)
    {n : Nat} : ∀ {key : ULong}, key.toNat + n = list.nextEntry.toNat →
    ∃ pairs, Enumerates list key pairs ∧ pairs.Nodup ∧ ∀ p h, (p, h) ∈ pairs ↔
      ∃ i, key ≤ i ∧ IsLive list.item list.nextEntry i p ∧ h = phpPointerListIndexToHandle i := by
  induction n with
  | zero =>
      intro key hkey
      have hend : ¬ key < list.nextEntry := fun hlt => by
        have := BitVec.lt_def.mp hlt
        omega
      have hrun : list.phEnumPointerListEx key = some (key, none) := by
        rw [phEnumPointerListEx, dif_neg hend]
      refine ⟨[], .done hrun, List.nodup_nil, fun p h => ?_⟩
      · refine ⟨fun hmem => absurd hmem List.not_mem_nil, ?_⟩
        rintro ⟨i, hi, hlive, -⟩
        have := BitVec.le_def.mp hi
        have := BitVec.lt_def.mp hlive.1
        omega
  | succ n ih =>
      intro key hkey
      have hlt : key < list.nextEntry := BitVec.lt_def.mpr (by omega)
      have hnext : (key + 1).toNat = key.toNat + 1 := by
        have := list.nextEntry.isLt
        rw [BitVec.toNat_add]
        exact Nat.mod_eq_of_lt (by simp; omega)
      have hrest : (key + 1).toNat + n = list.nextEntry.toNat := by omega
      obtain ⟨pairs, hpairs, hnodup, hmem⟩ := ih hrest
      obtain ⟨value, hvalue⟩ := hwritten key hlt
      have hsplit : ∀ i, key ≤ i ↔ i = key ∨ key + 1 ≤ i := by
        intro i
        rw [BitVec.le_def, BitVec.le_def, hnext]
        constructor
        · intro hle
          by_cases heq : i.toNat = key.toNat
          · exact .inl (BitVec.eq_of_toNat_eq heq)
          · exact .inr (by omega)
        · rintro (rfl | hle)
          · exact Nat.le_refl _
          · omega
      have hrun := phEnumPointerListEx.eq_def list key
      rw [dif_pos hlt, hvalue] at hrun
      simp only [Option.bind_eq_bind, Option.bind_some] at hrun
      by_cases hvalid : isListPointerValid value = true
      · rw [if_pos hvalid] at hrun
        refine ⟨(value, phpPointerListIndexToHandle key) :: pairs, .next hrun hpairs,
          List.nodup_cons.mpr ⟨fun hin => ?_, hnodup⟩, fun p h => ?_⟩
        · obtain ⟨i, hi, -, hhandle⟩ := (hmem _ _).mp hin
          have hle := BitVec.le_def.mp hi
          rw [← indexToHandle_inj hhandle] at hle
          omega
        · rw [List.mem_cons, hmem]
          constructor
          · rintro (heq | ⟨i, hi, hlive, hh⟩)
            · obtain ⟨rfl, rfl⟩ := Prod.mk.inj heq
              exact ⟨key, (hsplit key).mpr (.inl rfl), ⟨hlt, hvalue, hvalid⟩, rfl⟩
            · exact ⟨i, (hsplit i).mpr (.inr hi), hlive, hh⟩
          · rintro ⟨i, hi, hlive, hh⟩
            rcases (hsplit i).mp hi with rfl | hi
            · have hp := hlive.2.1.symm.trans hvalue
              rw [Option.some.injEq] at hp
              exact .inl (by rw [hp, hh])
            · exact .inr ⟨i, hi, hlive, hh⟩
      · rw [if_neg hvalid] at hrun
        refine ⟨pairs, hpairs.skip hrun, hnodup, fun p h => ?_⟩
        rw [hmem]
        constructor
        · rintro ⟨i, hi, hlive, hh⟩
          exact ⟨i, (hsplit i).mpr (.inr hi), hlive, hh⟩
        · rintro ⟨i, hi, hlive, hh⟩
          rcases (hsplit i).mp hi with rfl | hi
          · have hp := hlive.2.1.symm.trans hvalue
            rw [Option.some.injEq] at hp
            exact absurd (hp ▸ hlive.2.2) hvalid
          · exact ⟨i, hi, hlive, hh⟩

/-! ## Runs -/

/-- The lists that additions and removals lead to, with the pointers that were added and not
removed and their handles. -/
inductive PointerListRun : PhPointerList → List (ULongPtr × ULongPtr) → Prop where
  | create (initialCapacity : ULong) : PointerListRun (phCreatePointerList initialCapacity) []
  | add {list list' : PhPointerList} {live : List (ULongPtr × ULongPtr)}
      {pointer handle : ULongPtr} : PointerListRun list live →
      isListPointerValid pointer = true → live.length + 1 < 2 ^ 31 →
      list.phAddItemPointerList pointer = some (handle, list') →
      PointerListRun list' ((pointer, handle) :: live)
  | remove {list list' : PhPointerList} {live : List (ULongPtr × ULongPtr)}
      {pointer handle : ULongPtr} : PointerListRun list live → (pointer, handle) ∈ live →
      list.phRemoveItemPointerList handle = some list' →
      PointerListRun list' (live.erase (pointer, handle))

theorem PointerListRun.invariant (hrun : PointerListRun list live) :
    ∃ free, PointerListInvariant list live free := by
  induction hrun with
  | create initialCapacity => exact ⟨[], invariant_create initialCapacity⟩
  | add _ hpointer hlive hadd ih =>
      obtain ⟨free, h⟩ := ih
      obtain ⟨handle, list', free', hadd', h'⟩ := h.add hpointer hlive
      obtain ⟨rfl, rfl⟩ := Prod.mk.inj (Option.some.inj (hadd.symm.trans hadd'))
      exact ⟨free', h'⟩
  | remove _ hmem hremove ih =>
      obtain ⟨free, h⟩ := ih
      obtain ⟨list', free', hremove', h'⟩ := h.remove hmem
      obtain rfl := Option.some.inj (hremove.symm.trans hremove')
      exact ⟨free', h'⟩

/-- After every run the free chain is the free slots, the handles lead to their pointers, and the
calls that may follow return. -/
theorem pointerList_runs (hrun : PointerListRun list live) :
    (∃ free, Links.Chain (freeLink list.item) (entry list.freeEntry) free ∧ free.Nodup ∧
      ∀ i, i ∈ free ↔ IsFree list.item list.nextEntry i) ∧
    (live.map Prod.snd).Nodup ∧
    (∀ p h, (p, h) ∈ live → list.item (phpPointerListHandleToIndex h) = some p) ∧
    list.count.toNat = live.length ∧
    (∃ pairs, Enumerates list 0 pairs ∧ pairs.Perm live) ∧
    (∀ pointer, isListPointerValid pointer = true → live.length + 1 < 2 ^ 31 →
      ∃ handle list', list.phAddItemPointerList pointer = some (handle, list')) ∧
    ∀ p h, (p, h) ∈ live → ∃ list', list.phRemoveItemPointerList h = some list' := by
  obtain ⟨free, h⟩ := hrun.invariant
  refine ⟨⟨free, h.slots.chain, h.slots.free_nodup, h.slots.free_iff⟩, h.slots.handles_nodup,
    fun p k hmem => ?_, h.count, ?_, fun pointer hpointer hlive => ?_, fun p k hmem => ?_⟩
  · obtain ⟨i, hi, rfl⟩ := (h.slots.live_iff p k).mp hmem
    rw [handleToIndex_indexToHandle]
    exact hi.2.1
  · have hzero : (0 : ULong).toNat + list.nextEntry.toNat = list.nextEntry.toNat :=
      Nat.zero_add _
    obtain ⟨pairs, hpairs, hnodup, hmem⟩ := enumerates_from h.slots.written hzero
    refine ⟨pairs, hpairs, (List.perm_ext_iff_of_nodup hnodup h.slots.live_nodup).mpr ?_⟩
    rintro ⟨p, k⟩
    rw [hmem, h.slots.live_iff]
    refine exists_congr fun i => ?_
    rw [and_iff_right (BitVec.le_def.mpr (Nat.zero_le _))]
  · obtain ⟨handle, list', -, hadd, -⟩ := h.add hpointer hlive
    exact ⟨handle, list', hadd⟩
  · obtain ⟨list', -, hremove, -⟩ := h.remove hmem
    exact ⟨list', hremove⟩

/-- Two pointers are added and the first is removed. -/
theorem pointerList_runs_two :
    ∃ list, PointerListRun list [(8, 2)] ∧ ∃ pairs, Enumerates list 0 pairs ∧ pairs.Perm [(8, 2)] := by
  have hone : ∃ list, PointerListRun list [(4, 1)] ∧
      list.phAddItemPointerList 8 = some (2, { list with
        count := 2, allocatedCount := 2, nextEntry := 2, items := [some 4, some 8] }) :=
    ⟨_, (PointerListRun.create 0).add rfl (by decide) rfl, rfl⟩
  obtain ⟨one, hone, hadd⟩ := hone
  have htwo := hone.add rfl (by decide) hadd
  have hmem : ((4, 1) : ULongPtr × ULongPtr) ∈ [(8, 2), (4, 1)] := by decide
  have hrun := htwo.remove hmem rfl
  exact ⟨_, hrun, (pointerList_runs hrun).2.2.2.2.1⟩

end SystemInformer.PhLib
