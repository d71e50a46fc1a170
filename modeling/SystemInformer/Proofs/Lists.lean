import SystemInformer.PhLib.Lists

/-!
# Arrays and lists over whole runs

Doubling makes room whenever there is a capacity to double, and the functions that add several
items at once take what they need where doubling is not enough. `PhAddItem…` has no such second
test: after a resize to nothing, which the check on the count allows for an empty container, twice
the capacity is nothing again and the item is written behind it. Every other call keeps the items
inside of the block, provided that the bytes of the block were counted right.
-/

namespace SystemInformer.PhLib

open Cells

variable {α : Type} {w : Nat}

theorem itemsIn_eq {itemSize count : Nat} (h : count * itemSize < 2 ^ 64) :
    itemsIn itemSize count = count := by
  rw [itemsIn]
  split
  · rfl
  · next hsize => rw [Nat.mod_eq_of_lt h, Nat.mul_div_cancel _ (Nat.pos_of_ne_zero hsize)]

theorem toNat_ofNat_of_lt {n : Nat} (h : n < 2 ^ w) : (BitVec.ofNat w n).toNat = n :=
  (BitVec.toNat_ofNat n w).trans (Nat.mod_eq_of_lt h)

namespace ItemBuffer

/-- The container is in order, and its items are these. -/
structure Holding (itemSize : Nat) (buffer : ItemBuffer w α) (l : List α) : Prop where
  count : buffer.count.toNat = l.length
  small : l.length < 2 ^ 31
  room : l.length ≤ buffer.allocatedCount.toNat
  fits : buffer.allocatedCount.toNat * itemSize < 2 ^ 64
  size : buffer.items.length = buffer.allocatedCount.toNat
  items : Cells.Holds buffer.items (l.map some)

variable {itemSize : Nat} {buffer : ItemBuffer w α} {l : List α}

theorem holding_create (hw : 0 < w) {initialCapacity : BitVec w}
    (hfits : max 1 initialCapacity.toNat * itemSize < 2 ^ 64) :
    Holding itemSize (create itemSize initialCapacity : ItemBuffer w α) [] := by
  have hcapacity : (if initialCapacity = 0 then 1 else initialCapacity).toNat =
      max 1 initialCapacity.toNat := by
    split
    · next hzero =>
        have hone : (1 : BitVec w).toNat = 1 :=
          toNat_ofNat_of_lt (n := 1) (Nat.one_lt_two_pow (by omega))
        rw [hzero, hone]
        simp
    · next hne =>
        have : initialCapacity.toNat ≠ 0 := fun h => hne (BitVec.eq_of_toNat_eq h)
        omega
  have hsize : (create itemSize initialCapacity : ItemBuffer w α).items.length =
      max 1 initialCapacity.toNat := by
    rw [create, List.length_replicate, hcapacity, itemsIn_eq hfits]
  have hallocated : (create itemSize initialCapacity : ItemBuffer w α).allocatedCount.toNat =
      max 1 initialCapacity.toNat := hcapacity
  refine ⟨?_, Nat.two_pow_pos 31, Nat.zero_le _, by rw [hallocated]; exact hfits,
    by rw [hsize, hallocated], holds_nil⟩
  simp [create]

theorem Holding.reAllocate (h : Holding itemSize buffer l) {allocatedCount : BitVec w}
    (hroom : l.length ≤ allocatedCount.toNat)
    (hfits : allocatedCount.toNat * itemSize < 2 ^ 64) :
    Holding itemSize (buffer.reAllocate itemSize allocatedCount) l := by
  refine ⟨h.count, h.small, hroom, hfits, ?_, h.items.resize ?_⟩
  · exact length_resize.trans (itemsIn_eq hfits)
  · rw [itemsIn_eq hfits, List.length_map]
    exact hroom

theorem Holding.items_of_size (h : Holding itemSize buffer l) {count : Nat}
    (hcount : count ≤ buffer.allocatedCount.toNat) : itemsIn itemSize count = count :=
  itemsIn_eq ((Nat.mul_le_mul_right _ hcount).trans_lt h.fits)

/-! ## One call -/

theorem Holding.addItem (hw : 32 ≤ w) (h : Holding itemSize buffer l) {item : α}
    (hsmall : l.length + 1 < 2 ^ 31) (hcapacity : buffer.allocatedCount ≠ 0)
    (hfits : buffer.count = buffer.allocatedCount →
      2 * buffer.allocatedCount.toNat * itemSize < 2 ^ 64) :
    ∃ buffer', buffer.addItem itemSize item = .ok buffer' ∧
      Holding itemSize buffer' (l ++ [item]) := by
  have hpow : 2 ^ 32 ≤ 2 ^ w := Nat.pow_le_pow_right (by decide) hw
  have hcount := h.count
  have hpositive : buffer.allocatedCount.toNat ≠ 0 := fun hz =>
    hcapacity (BitVec.eq_of_toNat_eq hz)
  -- Either there was room, or the doubled capacity has some.
  obtain ⟨grown, hgrown, hholding, hcount', hroom⟩ : ∃ grown,
      (if buffer.count = buffer.allocatedCount then
        buffer.reAllocate itemSize (buffer.allocatedCount * 2) else buffer) = grown ∧
      Holding itemSize grown l ∧ grown.count = buffer.count ∧
      l.length < grown.allocatedCount.toNat := by
    by_cases hfull : buffer.count = buffer.allocatedCount
    · have hdouble : (buffer.allocatedCount * 2).toNat = 2 * buffer.allocatedCount.toNat := by
        have htwo : (2 : BitVec w).toNat = 2 := toNat_ofNat_of_lt (n := 2) (by omega)
        rw [BitVec.toNat_mul, htwo, Nat.mod_eq_of_lt (by rw [← hfull]; omega), Nat.mul_comm]
      rw [hfull] at hcount
      refine ⟨_, if_pos hfull, h.reAllocate ?_ ?_, rfl, ?_⟩
      · omega
      · rw [hdouble]
        exact hfits hfull
      · show _ < (buffer.allocatedCount * 2).toNat
        omega
    · have hne : buffer.count.toNat ≠ buffer.allocatedCount.toNat := fun heq =>
        hfull (BitVec.eq_of_toNat_eq heq)
      have := h.room
      exact ⟨_, if_neg hfull, h, rfl, by omega⟩
  have hfits : (l.map some).length + [some item].length ≤ grown.items.length := by
    rw [hholding.size, List.length_map]
    exact hroom
  obtain ⟨cells, hwrite, hlength, hcells⟩ := hholding.items.write_end hfits
  refine ⟨{ grown with count := grown.count + 1, items := cells }, ?_, ?_⟩
  · rw [ItemBuffer.addItem, hgrown]
    have hposition : grown.count.toNat = (l.map some).length := by
      rw [hholding.count, List.length_map]
    simp only [hposition, hwrite]
    rfl
  · have hone : (1 : BitVec w).toNat = 1 := toNat_ofNat_of_lt (n := 1) (by omega)
    refine ⟨?_, ?_, ?_, hholding.fits, ?_, ?_⟩
    · rw [BitVec.toNat_add, hone, hcount', h.count, List.length_append,
        Nat.mod_eq_of_lt (by omega)]
      rfl
    · rw [List.length_append]
      exact hsmall
    · rw [List.length_append]
      exact hroom
    · rw [hlength, hholding.size]
    · rw [List.map_append]
      exact hcells

theorem Holding.addItem_outside (h : Holding itemSize buffer l) {item : α}
    (hcapacity : buffer.allocatedCount = 0) :
    buffer.addItem itemSize item = .error .outsideItems := by
  have hroom := h.room
  have hzero : (0 : BitVec w).toNat = 0 := BitVec.toNat_zero
  rw [hcapacity, hzero] at hroom
  have hfull : buffer.count = buffer.allocatedCount := by
    rw [hcapacity]
    exact BitVec.eq_of_toNat_eq (by rw [h.count, hzero]; omega)
  have hnone : itemsIn itemSize ((0 : BitVec w) * 2).toNat = 0 := by
    rw [BitVec.toNat_mul, hzero, Nat.zero_mul, Nat.zero_mod]
    exact itemsIn_eq (by omega)
  rw [ItemBuffer.addItem, if_pos hfull, hcapacity]
  simp only [ItemBuffer.reAllocate, hnone, write]
  rw [if_neg (by rw [length_resize, List.length_singleton]; omega)]
  rfl

theorem Holding.grow (hw : 32 ≤ w) (h : Holding itemSize buffer l) {count : BitVec w}
    (hsmall : l.length + count.toNat < 2 ^ 31)
    (hfits : buffer.allocatedCount.toNat < l.length + count.toNat →
      max (2 * buffer.allocatedCount.toNat) (l.length + count.toNat) * itemSize < 2 ^ 64) :
    Holding itemSize (buffer.grow itemSize count) l ∧
      (buffer.grow itemSize count).count = buffer.count ∧
      l.length + count.toNat ≤ (buffer.grow itemSize count).allocatedCount.toNat := by
  have hpow : 2 ^ 32 ≤ 2 ^ w := Nat.pow_le_pow_right (by decide) hw
  have hsum : (buffer.count + count).toNat = l.length + count.toNat := by
    rw [BitVec.toNat_add, h.count, Nat.mod_eq_of_lt (by omega)]
  rw [ItemBuffer.grow]
  by_cases hless : buffer.allocatedCount < buffer.count + count
  · have hshort : buffer.allocatedCount.toNat < l.length + count.toNat := by
      rw [← hsum]
      exact BitVec.lt_def.mp hless
    have hdouble : (buffer.allocatedCount * 2).toNat = 2 * buffer.allocatedCount.toNat := by
      have htwo : (2 : BitVec w).toNat = 2 := toNat_ofNat_of_lt (n := 2) (by omega)
      rw [BitVec.toNat_mul, htwo, Nat.mod_eq_of_lt (by omega), Nat.mul_comm]
    have hgrown : (buffer.grownCapacity count).toNat =
        max (2 * buffer.allocatedCount.toNat) (l.length + count.toNat) := by
      rw [ItemBuffer.grownCapacity]
      simp only [BitVec.lt_def, hdouble, hsum]
      split
      · rw [hsum]
        omega
      · rw [hdouble]
        omega
    rw [if_pos hless]
    refine ⟨h.reAllocate ?_ ?_, rfl, ?_⟩
    · omega
    · rw [hgrown]
      exact hfits hshort
    · show _ ≤ (buffer.grownCapacity count).toNat
      omega
  · rw [if_neg hless]
    refine ⟨h, rfl, ?_⟩
    rw [← hsum]
    exact Nat.le_of_not_lt fun hlt => hless (BitVec.lt_def.mpr hlt)

theorem Holding.copied (h : Holding itemSize buffer l) {items : List α} {count : BitVec w}
    (hcount : count.toNat = items.length) (hroom : count.toNat ≤ buffer.allocatedCount.toNat) :
    copied itemSize items count = items.map some := by
  rw [ItemBuffer.copied, h.items_of_size hroom, hcount, List.take_length]

theorem Holding.with_items (hw : 32 ≤ w) (h : Holding itemSize buffer l) {l' items : List α}
    {count : BitVec w} {cells : List (Option α)} (hcount : count.toNat = items.length)
    (hsmall : l.length + count.toNat < 2 ^ 31)
    (hroom : l.length + count.toNat ≤ buffer.allocatedCount.toNat)
    (hl' : l'.length = l.length + items.length) (hlength : cells.length = buffer.items.length)
    (hcells : Cells.Holds cells (l'.map some)) :
    Holding itemSize { buffer with count := buffer.count + count, items := cells } l' := by
  have hpow : 2 ^ 32 ≤ 2 ^ w := Nat.pow_le_pow_right (by decide) hw
  refine ⟨?_, by omega, ?_, h.fits, by rw [hlength, h.size], hcells⟩
  · rw [BitVec.toNat_add, h.count, Nat.mod_eq_of_lt (by omega)]
    omega
  · show l'.length ≤ buffer.allocatedCount.toNat
    omega

theorem Holding.addItems (hw : 32 ≤ w) (h : Holding itemSize buffer l) {items : List α}
    {count : BitVec w} (hcount : count.toNat = items.length)
    (hsmall : l.length + count.toNat < 2 ^ 31)
    (hfits : buffer.allocatedCount.toNat < l.length + count.toNat →
      max (2 * buffer.allocatedCount.toNat) (l.length + count.toNat) * itemSize < 2 ^ 64) :
    ∃ buffer', buffer.addItems itemSize items count = .ok buffer' ∧
      Holding itemSize buffer' (l ++ items) := by
  obtain ⟨hgrown, -, hroom⟩ := h.grow hw hsmall hfits
  have hbound : (l.map some).length + (items.map some).length ≤
      (buffer.grow itemSize count).items.length := by
    rw [hgrown.size, List.length_map, List.length_map]
    omega
  obtain ⟨cells, hwrite, hlength, hcells⟩ := hgrown.items.write_end hbound
  rw [← List.map_append] at hcells
  refine ⟨_, ?_, hgrown.with_items hw hcount hsmall hroom List.length_append hlength hcells⟩
  rw [ItemBuffer.addItems]
  have hposition : (buffer.grow itemSize count).count.toNat = (l.map some).length := by
    rw [hgrown.count, List.length_map]
  simp only [hposition, hgrown.copied hcount (by omega), hwrite]
  rfl

theorem Holding.insertItems (hw : 32 ≤ w) (h : Holding itemSize buffer l) {items : List α}
    {index count : BitVec w} (hindex : index.toNat ≤ l.length)
    (hcount : count.toNat = items.length) (hsmall : l.length + count.toNat < 2 ^ 31)
    (hfits : buffer.allocatedCount.toNat < l.length + count.toNat →
      max (2 * buffer.allocatedCount.toNat) (l.length + count.toNat) * itemSize < 2 ^ 64) :
    ∃ buffer', buffer.insertItems itemSize index items count = .ok buffer' ∧
      Holding itemSize buffer' (l.take index.toNat ++ items ++ l.drop index.toNat) := by
  have hpow : 2 ^ 32 ≤ 2 ^ w := Nat.pow_le_pow_right (by decide) hw
  obtain ⟨hgrown, -, hroom⟩ := h.grow hw hsmall hfits
  have hnew : (l.take index.toNat ++ items ++ l.drop index.toNat).length =
      l.length + items.length := by
    simp only [List.length_append, List.length_take, List.length_drop]
    omega
  have hmap : (l.take index.toNat ++ items ++ l.drop index.toNat).map some =
      (l.map some).take index.toNat ++ items.map some ++ (l.map some).drop index.toNat := by
    simp only [List.map_append, List.map_take, List.map_drop]
  have hbound : (l.map some).length + (items.map some).length ≤
      (buffer.grow itemSize count).items.length := by
    rw [hgrown.size, List.length_map, List.length_map]
    omega
  rw [ItemBuffer.insertItems]
  simp only [hgrown.copied hcount (by omega)]
  by_cases hinside : index < (buffer.grow itemSize count).count
  · have hposition : index.toNat ≤ (l.map some).length := by
      rw [List.length_map]
      exact hindex
    obtain ⟨moved, cells, hmove, hwrite, hlength, hcells⟩ :=
      hgrown.items.insert hposition hbound
    rw [← hmap] at hcells
    have hdestination : (index + count).toNat = index.toNat + (items.map some).length := by
      rw [BitVec.toNat_add, List.length_map, hcount, Nat.mod_eq_of_lt (by omega)]
    have htail : itemsIn itemSize ((buffer.grow itemSize count).count - index).toNat =
        (l.map some).length - index.toNat := by
      have hsub : ((buffer.grow itemSize count).count - index).toNat =
          l.length - index.toNat := by
        rw [BitVec.toNat_sub_of_le (BitVec.le_of_lt hinside), hgrown.count]
      rw [hsub, hgrown.items_of_size (by omega), List.length_map]
    refine ⟨_, ?_, hgrown.with_items hw hcount hsmall hroom hnew hlength hcells⟩
    rw [if_pos hinside, hdestination, htail, hmove]
    simp only [inItems, Option.elim, bind, Except.bind, hwrite]
  · have hend : index.toNat = (l.map some).length := by
      have hle : (buffer.grow itemSize count).count.toNat ≤ index.toNat :=
        Nat.le_of_not_lt fun hlt => hinside (BitVec.lt_def.mpr hlt)
      rw [hgrown.count] at hle
      rw [List.length_map]
      omega
    obtain ⟨cells, hwrite, hlength, hcells⟩ := hgrown.items.write_end hbound
    have hcells' : Cells.Holds cells
        ((l.take index.toNat ++ items ++ l.drop index.toNat).map some) := by
      rw [hmap, hend, List.take_length, List.drop_length, List.append_nil]
      exact hcells
    refine ⟨_, ?_, hgrown.with_items hw hcount hsmall hroom hnew hlength hcells'⟩
    rw [if_neg hinside]
    simp only [bind, Except.bind, hend, hwrite, inItems, Option.elim]

theorem Holding.removeItems (h : Holding itemSize buffer l) {startIndex count : BitVec w}
    (hrange : startIndex.toNat + count.toNat ≤ l.length) :
    ∃ buffer', buffer.removeItems itemSize startIndex count = .ok buffer' ∧
      Holding itemSize buffer'
        (l.take startIndex.toNat ++ l.drop (startIndex.toNat + count.toNat)) := by
  have hcountlt := buffer.count.isLt
  have hcount := h.count
  have hroom := h.room
  have hend : (startIndex + count).toNat = startIndex.toNat + count.toNat := by
    rw [BitVec.toNat_add, Nat.mod_eq_of_lt (by omega)]
  have hfirst : (buffer.count - startIndex).toNat = l.length - startIndex.toNat := by
    rw [BitVec.toNat_sub_of_le (BitVec.le_def.mpr (by omega)), hcount]
  have hrest : (buffer.count - startIndex - count).toNat =
      l.length - (startIndex.toNat + count.toNat) := by
    rw [BitVec.toNat_sub_of_le (BitVec.le_def.mpr (by omega)), hfirst]
    omega
  have hgap : startIndex.toNat + count.toNat ≤ (l.map some).length := by
    rw [List.length_map]
    exact hrange
  obtain ⟨cells, hmove, hlength, hcells⟩ := h.items.closeGap hgap
  rw [List.length_map] at hmove
  refine ⟨{ buffer with count := buffer.count - count, items := cells }, ?_, ?_, ?_, ?_, h.fits,
    by rw [hlength, h.size], ?_⟩
  · rw [ItemBuffer.removeItems, hend, hrest, h.items_of_size (by omega), hmove]
    rfl
  · rw [BitVec.toNat_sub_of_le (BitVec.le_def.mpr (by omega)), hcount]
    simp only [List.length_append, List.length_take, List.length_drop]
    omega
  · have := h.small
    simp only [List.length_append, List.length_take, List.length_drop]
    omega
  · simp only [List.length_append, List.length_take, List.length_drop]
    show _ ≤ buffer.allocatedCount.toNat
    omega
  · simp only [List.map_append, List.map_take, List.map_drop]
    exact hcells

/-! ## Runs -/

end ItemBuffer

def ItemCall.Allowed (l : List α) : ItemCall w α → Prop
  | .addItem _ => l.length + 1 < 2 ^ 31
  | .addItems items => l.length + items.length < 2 ^ 31
  | .removeItems startIndex count => startIndex.toNat + count.toNat ≤ l.length
  | .resize newCapacity => l.length ≤ newCapacity.toNat
  | .clear => True

def ItemCall.effect (l : List α) : ItemCall w α → List α
  | .addItem item => l ++ [item]
  | .addItems items => l ++ items
  | .removeItems startIndex count =>
      l.take startIndex.toNat ++ l.drop (startIndex.toNat + count.toNat)
  | .resize _ => l
  | .clear => []

/-- One item is added to a container without capacity. -/
def ItemCall.AddsToNothing (buffer : ItemBuffer w α) : ItemCall w α → Prop
  | .addItem _ => buffer.allocatedCount = 0
  | _ => False

/-- The bytes of every block that the call may ask for can be counted. -/
def ItemCall.Fits (itemSize : Nat) (buffer : ItemBuffer w α) : ItemCall w α → Prop
  | .addItem _ => buffer.count = buffer.allocatedCount →
      2 * buffer.allocatedCount.toNat * itemSize < 2 ^ 64
  | .addItems items => buffer.allocatedCount.toNat < buffer.count.toNat + items.length →
      max (2 * buffer.allocatedCount.toNat) (buffer.count.toNat + items.length) * itemSize <
        2 ^ 64
  | .resize newCapacity => newCapacity.toNat * itemSize < 2 ^ 64
  | _ => True

def ItemBuffer.perform (itemSize : Nat) (buffer : ItemBuffer w α) :
    ItemCall w α → Except ItemFault (ItemBuffer w α)
  | .addItem item => buffer.addItem itemSize item
  | .addItems items => buffer.addItems itemSize items (BitVec.ofNat w items.length)
  | .removeItems startIndex count => buffer.removeItems itemSize startIndex count
  | .resize newCapacity => buffer.resize itemSize newCapacity
  | .clear => .ok buffer.clear

section

variable {itemSize : Nat} {buffer : ItemBuffer w α} {l : List α}

theorem ItemBuffer.Holding.clear (h : buffer.Holding itemSize l) :
    buffer.clear.Holding itemSize ([] : List α) := by
  refine ⟨?_, Nat.two_pow_pos 31, Nat.zero_le _, h.fits, h.size, holds_nil⟩
  simp [ItemBuffer.clear]

theorem ItemBuffer.Holding.perform (hw : 32 ≤ w) (h : buffer.Holding itemSize l)
    {call : ItemCall w α} (hallowed : call.Allowed l) (hcapacity : ¬ call.AddsToNothing buffer)
    (hfits : call.Fits itemSize buffer) :
    ∃ buffer', buffer.perform itemSize call = .ok buffer' ∧
      buffer'.Holding itemSize (call.effect l) := by
  cases call with
  | addItem item => exact h.addItem hw hallowed hcapacity hfits
  | addItems items =>
      have hpow : 2 ^ 32 ≤ 2 ^ w := Nat.pow_le_pow_right (by decide) hw
      have hsmall : l.length + items.length < 2 ^ 31 := hallowed
      have hcount : (BitVec.ofNat w items.length).toNat = items.length :=
        toNat_ofNat_of_lt (by omega)
      rw [ItemCall.Fits, h.count] at hfits
      exact h.addItems hw hcount (by rw [hcount]; exact hsmall) (by rw [hcount]; exact hfits)
  | removeItems startIndex count => exact h.removeItems hallowed
  | resize newCapacity =>
      have hnot : ¬ newCapacity < buffer.count := fun hlt => by
        have hlt' := BitVec.lt_def.mp hlt
        rw [h.count] at hlt'
        exact absurd hallowed (Nat.not_le.mpr hlt')
      exact ⟨_, if_neg hnot, h.reAllocate hallowed hfits⟩
  | clear => exact ⟨_, rfl, h.clear⟩

end

/-! ### Lists -/

namespace ListCall

def Allowed (l : List α) : ListCall α → Prop
  | .shared call => call.Allowed l
  | .insertItems index items => index.toNat ≤ l.length ∧ l.length + items.length < 2 ^ 31

def effect (l : List α) : ListCall α → List α
  | .shared call => call.effect l
  | .insertItems index items => l.take index.toNat ++ items ++ l.drop index.toNat

def AddsToNothing (list : PhList α) : ListCall α → Prop
  | .shared call => call.AddsToNothing list
  | .insertItems _ _ => False

end ListCall

/-- The lists that calls lead to, with the sequences that the items are meant to be, when no item
was added to a list without capacity. -/
inductive ListRun : PhList α → List α → Prop where
  | create (initialCapacity : ULong) : ListRun (PhList.phCreateList initialCapacity) []
  | call {list list' : PhList α} {l : List α} {call : ListCall α} : ListRun list l →
      call.Allowed l → ¬ call.AddsToNothing list → list.perform call = .ok list' →
      ListRun list' (call.effect l)

theorem PhList.perform_shared (list : PhList α) (call : ItemCall 32 α) :
    list.perform (.shared call) = ItemBuffer.perform sizeofPVoid list call := by
  cases call <;> rfl

theorem fits_pointers {list : PhList α} {l : List α} (h : list.Holding sizeofPVoid l)
    {call : ItemCall 32 α} (hallowed : call.Allowed l) : call.Fits sizeofPVoid list := by
  have hcount := h.count
  have hallocated := list.allocatedCount.isLt
  cases call with
  | addItem item =>
      intro _
      rw [sizeofPVoid]
      omega
  | addItems items =>
      intro _
      have hsmall : l.length + items.length < 2 ^ 31 := hallowed
      rw [sizeofPVoid]
      omega
  | removeItems startIndex count => exact trivial
  | resize newCapacity =>
      have := newCapacity.isLt
      show newCapacity.toNat * sizeofPVoid < 2 ^ 64
      rw [sizeofPVoid]
      omega
  | clear => exact trivial

theorem PhList.perform_holding {list : PhList α} {l : List α} (h : list.Holding sizeofPVoid l)
    {call : ListCall α} (hallowed : call.Allowed l) (hcapacity : ¬ call.AddsToNothing list) :
    ∃ list', list.perform call = .ok list' ∧
      ItemBuffer.Holding sizeofPVoid list' (call.effect l) := by
  cases call with
  | shared call =>
      rw [list.perform_shared]
      exact h.perform (Nat.le_refl 32) hallowed hcapacity (fits_pointers h hallowed)
  | insertItems index items =>
      obtain ⟨hindex, hsmall⟩ := hallowed
      have hallocated := list.allocatedCount.isLt
      have hcount : (BitVec.ofNat 32 items.length).toNat = items.length :=
        toNat_ofNat_of_lt (by omega)
      refine h.insertItems (Nat.le_refl 32) hindex hcount (by rw [hcount]; exact hsmall)
        fun _ => ?_
      rw [hcount, sizeofPVoid]
      omega

theorem ListRun.holding {list : PhList α} {l : List α} (hrun : ListRun list l) :
    list.Holding sizeofPVoid l := by
  induction hrun with
  | create initialCapacity =>
      refine ItemBuffer.holding_create (by decide) ?_
      have := initialCapacity.isLt
      rw [sizeofPVoid]
      omega
  | call _ hallowed hcapacity hperform ih =>
      obtain ⟨list'', hperform', hholding⟩ := PhList.perform_holding ih hallowed hcapacity
      rw [hperform] at hperform'
      injection hperform' with heq
      rw [heq]
      exact hholding

/-! ### Arrays -/

/-- The arrays that calls lead to, when no item was added to an array without capacity and the
bytes of every block could be counted. -/
inductive ArrayRun (itemSize : ULongPtr) : PhArray α → List α → Prop where
  | create {initialCapacity : ULongPtr} :
      max 1 initialCapacity.toNat * itemSize.toNat < 2 ^ 64 →
      ArrayRun itemSize (PhArray.phInitializeArray itemSize initialCapacity) []
  | call {array array' : PhArray α} {l : List α} {call : ItemCall 64 α} :
      ArrayRun itemSize array l → call.Allowed l → ¬ call.AddsToNothing array.toItemBuffer →
      call.Fits itemSize.toNat array.toItemBuffer → array.perform call = .ok array' →
      ArrayRun itemSize array' (call.effect l)

theorem PhArray.perform_eq (array : PhArray α) (call : ItemCall 64 α) :
    array.perform call =
      array.withBuffer (array.toItemBuffer.perform array.itemSize.toNat call) := by
  cases call <;> rfl

theorem PhArray.perform_holding {itemSize : ULongPtr} {array : PhArray α} {l : List α}
    (hsize : array.itemSize = itemSize) (h : array.Holding itemSize.toNat l)
    {call : ItemCall 64 α} (hallowed : call.Allowed l)
    (hcapacity : ¬ call.AddsToNothing array.toItemBuffer)
    (hfits : call.Fits itemSize.toNat array.toItemBuffer) :
    ∃ array', array.perform call = .ok array' ∧ array'.itemSize = itemSize ∧
      array'.Holding itemSize.toNat (call.effect l) := by
  subst hsize
  obtain ⟨buffer, hperform, hholding⟩ := h.perform (by decide) hallowed hcapacity hfits
  refine ⟨⟨buffer, array.itemSize⟩, ?_, rfl, hholding⟩
  rw [array.perform_eq, hperform]
  rfl

theorem ArrayRun.holding {itemSize : ULongPtr} {array : PhArray α} {l : List α}
    (hrun : ArrayRun itemSize array l) :
    array.itemSize = itemSize ∧ array.Holding itemSize.toNat l := by
  induction hrun with
  | create hfits => exact ⟨rfl, ItemBuffer.holding_create (by decide) hfits⟩
  | call _ hallowed hcapacity hfits hperform ih =>
      obtain ⟨array'', hperform', hsize, hholding⟩ :=
        PhArray.perform_holding ih.1 ih.2 hallowed hcapacity hfits
      rw [hperform] at hperform'
      injection hperform' with heq
      rw [heq]
      exact ⟨hsize, hholding⟩

/-! ### The claim's property -/

/-- The count is within the capacity, the block has that many items, and the items in use are
the sequence. -/
def ItemBuffer.Contains (buffer : ItemBuffer w α) (l : List α) : Prop :=
  buffer.count.toNat = l.length ∧ buffer.count ≤ buffer.allocatedCount ∧
    buffer.items.length = buffer.allocatedCount.toNat ∧
    buffer.items.take buffer.count.toNat = l.map some

theorem ItemBuffer.Holding.contains {itemSize : Nat} {buffer : ItemBuffer w α} {l : List α}
    (h : buffer.Holding itemSize l) : buffer.Contains l := by
  refine ⟨h.count, BitVec.le_def.mpr ?_, h.size, ?_⟩
  · rw [h.count]
    exact h.room
  · have hlength := h.items.1
    rw [List.length_map] at hlength
    rw [h.count]
    refine List.ext_getElem? fun i => ?_
    by_cases hi : i < l.length
    · rw [List.getElem?_take_of_lt hi, List.getElem?_map, List.getElem?_eq_getElem hi]
      refine h.items.2 i l[i] ?_
      rw [List.getElem?_map, List.getElem?_eq_getElem hi]
      rfl
    · rw [List.getElem?_eq_none (by rw [List.length_take]; omega),
        List.getElem?_eq_none (by rw [List.length_map]; omega)]

/-- In every run of calls that add nothing to a container without capacity, the container holds
the sequence, and a further call stays inside of the items if and only if it does not either. -/
theorem lists_and_arrays_hold :
    (∀ (list : PhList α) (l : List α), ListRun list l → list.Contains l ∧
        ∀ call : ListCall α, call.Allowed l →
          ((∃ list', list.perform call = .ok list') ↔ ¬ call.AddsToNothing list)) ∧
      ∀ (itemSize : ULongPtr) (array : PhArray α) (l : List α), ArrayRun itemSize array l →
        array.Contains l ∧
          ∀ call : ItemCall 64 α, call.Allowed l → call.Fits itemSize.toNat array.toItemBuffer →
            ((∃ array', array.perform call = .ok array') ↔
              ¬ call.AddsToNothing array.toItemBuffer) := by
  refine ⟨fun list l hrun => ⟨hrun.holding.contains, fun call hallowed => ⟨?_, ?_⟩⟩,
    fun itemSize array l hrun => ?_⟩
  · rintro ⟨list', hperform⟩ hnothing
    cases call with
    | insertItems index items => exact hnothing
    | shared call =>
        cases call with
        | addItem item =>
            have houtside : list.perform (.shared (.addItem item)) = .error .outsideItems :=
              hrun.holding.addItem_outside hnothing
            exact absurd (hperform.symm.trans houtside) (by simp)
        | _ => exact hnothing
  · intro hcapacity
    obtain ⟨list', hperform, -⟩ := PhList.perform_holding hrun.holding hallowed hcapacity
    exact ⟨list', hperform⟩
  · obtain ⟨hsize, hholding⟩ := hrun.holding
    refine ⟨hholding.contains, fun call hallowed hfits => ⟨?_, fun hcapacity => ?_⟩⟩
    · rintro ⟨array', hperform⟩ hnothing
      rw [array.perform_eq, hsize] at hperform
      cases call with
      | addItem item =>
          have houtside : array.toItemBuffer.addItem itemSize.toNat item =
              .error .outsideItems := hholding.addItem_outside hnothing
          rw [ItemBuffer.perform, houtside] at hperform
          cases hperform
      | _ => exact hnothing
    · obtain ⟨array', hperform, -⟩ :=
        PhArray.perform_holding hsize hholding hallowed hcapacity hfits
      exact ⟨array', hperform⟩

theorem lists_and_arrays_hold_three :
    ∃ list : PhList Nat, ListRun list [1, 2, 3] ∧ list.Contains [1, 2, 3] := by
  have hone : (ListCall.shared (.addItem 3)).Allowed ([] : List Nat) :=
    show (0 : Nat) + 1 < 2 ^ 31 by decide
  have hcapacity : ¬ (ListCall.shared (.addItem 3)).AddsToNothing
      (PhList.phCreateList 0 : PhList Nat) := show ¬ (1 : ULong) = 0 by decide
  have htwo : (ListCall.insertItems 0 [1, 2]).Allowed [3] :=
    show (0 : Nat) ≤ 1 ∧ 1 + 2 < 2 ^ 31 by decide
  obtain ⟨list₁, hperform₁, hholding₁⟩ :=
    PhList.perform_holding (ListRun.create 0).holding hone hcapacity
  have hrun₁ := (ListRun.create 0).call hone hcapacity hperform₁
  obtain ⟨list₂, hperform₂, -⟩ := PhList.perform_holding hholding₁ htwo id
  have hrun₂ := hrun₁.call htwo id hperform₂
  exact ⟨list₂, hrun₂, (lists_and_arrays_hold.1 list₂ _ hrun₂).1⟩

/-- An empty container is given up its capacity, and an item is added. -/
theorem addItem_leaves_allocation :
    ((PhList.phCreateList 4 : PhList Nat).phResizeList 0).bind
        (fun list => list.phAddItemList 7) = .error .outsideItems ∧
      ((PhArray.phInitializeArray 16 4 : PhArray Nat).phResizeArray 0).bind
        (fun array => array.phAddItemArray 7) = .error .outsideItems :=
  ⟨rfl, rfl⟩

end SystemInformer.PhLib
