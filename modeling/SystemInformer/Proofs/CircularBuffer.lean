import SystemInformer.Lib.Runs
import SystemInformer.PhLib.CircularBuffer

/-!
# A circular buffer is a bounded history

The history of a buffer is the list of the items added since the last clear, the last one first,
and how many of them are kept: at most as many as the buffer had room for at any time since. A
buffer represents its history when the cells from its index on, around the end of its array, are
the first items of the list (`Represents`).

All calls keep that, except that a buffer may only grow when its tail, the cells from the index to
the end of the array, is no longer than the count: the size of the head is the count less the
size of the tail, as a `ULONG`. The tail is too long exactly when the index is 0 and the buffer is
not full, as it is after an initialization, a clear or a resize. The head that is copied then is
larger than any array.
-/

namespace SystemInformer.PhLib

variable {α : Type}

/-! ## Arrays -/

/-- A place of an array after going around its end once. -/
def wrapped (size place : Nat) : Nat := if place < size then place else place - size

theorem mod_eq_wrapped {size place : Nat} (h : place < size + size) :
    place % size = wrapped size place := by
  rw [wrapped]
  split
  · next hlt => exact Nat.mod_eq_of_lt hlt
  · next hge =>
      rw [Nat.mod_eq_sub_mod (Nat.le_of_not_lt hge)]
      exact Nat.mod_eq_of_lt (by omega)

theorem copyItems_some (destination source : List (Option α)) (position start count : ULong)
    (hsource : start.toNat + count.toNat ≤ source.length)
    (hdestination : position.toNat + count.toNat ≤ destination.length) :
    ∃ data, copyItems destination position source start count = some data ∧
      data.length = destination.length ∧
      ∀ i : Nat, data[i]? = if position.toNat ≤ i ∧ i < position.toNat + count.toNat then
        source[start.toNat + (i - position.toNat)]? else destination[i]? := by
  have hlength : ((source.drop start.toNat).take count.toNat).length = count.toNat := by
    rw [List.length_take, List.length_drop]
    omega
  refine ⟨_, if_pos ⟨hsource, hdestination⟩, ?_, fun i => ?_⟩
  · rw [Overlay.length_overlay, hlength]
    split
    · rfl
    · omega
  · by_cases hempty : (source.drop start.toNat).take count.toNat = []
    · rw [hempty, List.length_nil] at hlength
      rw [hempty, Overlay.overlay_nil, if_neg (by omega)]
    · rw [Overlay.getElem?_overlay hempty, hlength]
      by_cases hlow : i < position.toNat
      · rw [if_pos hlow, if_pos (show i < destination.length by omega),
          if_neg fun h => Nat.not_le.mpr hlow h.1, List.getElem?_eq_getElem (by omega)]
      · rw [if_neg hlow]
        by_cases hhigh : i < position.toNat + count.toNat
        · rw [if_pos hhigh, if_pos (by omega), List.getElem?_take_of_lt (by omega),
            List.getElem?_drop]
        · rw [if_neg hhigh, if_neg (by omega)]

theorem copyItems_none {destination source : List (Option α)} {position start count : ULong}
    (h : source.length < count.toNat) :
    copyItems destination position source start count = none := by
  rw [copyItems, if_neg]
  omega

theorem toNat_sub_of_le {a b : ULong} (h : b.toNat ≤ a.toNat) :
    (a - b).toNat = a.toNat - b.toNat := BitVec.toNat_sub_of_le (BitVec.le_def.mpr h)

namespace PhCircularBuffer

/-! ## Histories -/

def roundedSize (size : ULong) : Nat := 2 ^ Nat.clog 2 size.toNat

/-- The items added since the last clear, the last one first, and how many of them are kept. -/
structure History (α : Type) where
  size : Nat
  count : Nat
  items : List α

namespace History

def start (size : ULong) : History α := ⟨roundedSize size, 0, []⟩

def add (h : History α) (value : α) : History α :=
  ⟨h.size, min (h.count + 1) h.size, value :: h.items⟩

def step (h : History α) : Operation α → History α
  | .add value => h.add value
  | .add2 value => h.add value
  | .clear => ⟨h.size, 0, []⟩
  | .resize newSize => ⟨roundedSize newSize, min h.count (roundedSize newSize), h.items⟩

end History

def ValidSize (size : ULong) : Prop := 1 ≤ size.toNat ∧ size.toNat ≤ 2 ^ 30

def Operation.Valid : Operation α → Prop
  | .resize newSize => ValidSize newSize
  | _ => True

instance (size : ULong) : Decidable (ValidSize size) :=
  inferInstanceAs (Decidable (1 ≤ size.toNat ∧ size.toNat ≤ 2 ^ 30))

instance : (operation : Operation α) → Decidable operation.Valid
  | .resize newSize => inferInstanceAs (Decidable (ValidSize newSize))
  | .add _ => isTrue trivial
  | .add2 _ => isTrue trivial
  | .clear => isTrue trivial

theorem roundedSize_le {size : ULong} (h : ValidSize size) :
    0 < roundedSize size ∧ roundedSize size ≤ 2 ^ 30 :=
  ⟨Nat.two_pow_pos _, Nat.pow_le_pow_right (by decide) (Nat.clog_le_of_le_pow h.2)⟩

theorem toNat_rounded {size : ULong} (h : ValidSize size) :
    (phRoundUpToPowerOfTwo size).toNat = roundedSize size :=
  toNat_phRoundUpToPowerOfTwo h.1 (h.2.trans (by decide))

structure Represents (buffer : PhCircularBuffer α) (h : History α) : Prop where
  size : buffer.size.toNat = h.size
  power : ∃ k ≤ 30, h.size = 2 ^ k
  sizeMinusOne : buffer.sizeMinusOne = buffer.size - 1
  length : buffer.data.length = h.size
  count : buffer.count.toNat = h.count
  count_le : h.count ≤ h.size
  known : h.count ≤ h.items.length
  index : buffer.index.toNat < h.size
  tail : buffer.index.toNat = 0 ∨ h.size - buffer.index.toNat ≤ h.count
  item : ∀ i < h.count, buffer.data[wrapped h.size (buffer.index.toNat + i)]? = some h.items[i]?

theorem represents_start {size : ULong} (hsize : ValidSize size) :
    Represents (phInitializeCircularBuffer size) (History.start size : History α) where
  size := toNat_rounded hsize
  power := ⟨_, Nat.clog_le_of_le_pow hsize.2, rfl⟩
  sizeMinusOne := rfl
  length := List.length_replicate.trans (toNat_rounded hsize)
  count := rfl
  count_le := Nat.zero_le _
  known := le_rfl
  index := (roundedSize_le hsize).1
  tail := Or.inl rfl
  item := fun i hi => absurd hi (Nat.not_lt_zero i)

variable {buffer : PhCircularBuffer α} {h : History α}

namespace Represents

theorem size_pos (hr : buffer.Represents h) : 0 < h.size := by
  obtain ⟨k, -, hk⟩ := hr.power
  rw [hk]
  exact Nat.two_pow_pos k

theorem size_le (hr : buffer.Represents h) : h.size ≤ 2 ^ 30 := by
  obtain ⟨k, hle, hk⟩ := hr.power
  rw [hk]
  exact Nat.pow_le_pow_right (by decide) hle

theorem toNat_and (hr : buffer.Represents h) (x : ULong) :
    (x &&& buffer.sizeMinusOne).toNat = x.toNat % h.size := by
  obtain ⟨k, hle, hk⟩ := hr.power
  have hone : (buffer.size - 1).toNat = 2 ^ k - 1 := by
    have hone : (1 : ULong).toNat ≤ buffer.size.toNat := by
      rw [hr.size]
      exact hr.size_pos
    rw [toNat_sub_of_le hone, hr.size, hk]
    rfl
  rw [hr.sizeMinusOne, BitVec.toNat_and, hone, Nat.and_two_pow_sub_one_eq_mod, hk]

theorem toNat_previous (hr : buffer.Represents h) :
    ((buffer.index - 1) &&& buffer.sizeMinusOne).toNat =
      if buffer.index.toNat = 0 then h.size - 1 else buffer.index.toNat - 1 := by
  have hindex := hr.index
  rw [hr.toNat_and]
  split
  · next hzero =>
      obtain ⟨k, hle, hk⟩ := hr.power
      have hindex0 : buffer.index = 0 := BitVec.eq_of_toNat_eq hzero
      have hpow : (0 - 1 : ULong).toNat = 2 ^ k * (2 ^ (32 - k) - 1) + (2 ^ k - 1) := by
        have hk32 : 2 ^ k * 2 ^ (32 - k) = 4294967296 := by
          rw [← Nat.pow_add, Nat.add_sub_cancel' (by omega)]
        have hpos : 0 < 2 ^ k := Nat.two_pow_pos k
        have hle : 2 ^ k ≤ 2 ^ k * 2 ^ (32 - k) :=
          Nat.le_mul_of_pos_right _ (Nat.two_pow_pos _)
        rw [Nat.mul_sub, Nat.mul_one]
        change 4294967295 = _
        omega
      rw [hindex0, hk, hpow, Nat.mul_add_mod]
      exact Nat.mod_eq_of_lt (Nat.sub_lt (Nat.two_pow_pos k) Nat.one_pos)
  · next hpos =>
      have hone : (1 : BitVec 32).toNat ≤ buffer.index.toNat := Nat.one_le_iff_ne_zero.mpr hpos
      rw [toNat_sub_of_le hone]
      exact Nat.mod_eq_of_lt (by change buffer.index.toNat - 1 < h.size; omega)

end Represents

/-! ## Adding -/

namespace Represents

theorem item_set (hr : buffer.Represents h) (value : α) {index : Nat}
    (hindex : index = if buffer.index.toNat = 0 then h.size - 1 else buffer.index.toNat - 1) :
    ∀ i < (h.add value).count,
      (buffer.data.set index (some value))[wrapped h.size (index + i)]? =
        some (h.add value).items[i]? := by
  have hlength := hr.length
  have hplace := hr.index
  have hpos := hr.size_pos
  intro i hi
  have hi' : i < h.count + 1 ∧ i < h.size := lt_min_iff.mp hi
  cases i with
  | zero =>
      have hsame : wrapped h.size (index + 0) = index := by
        rw [wrapped, if_pos (by split at hindex <;> omega), Nat.add_zero]
      rw [hsame, List.getElem?_set_self (by split at hindex <;> omega)]
      rfl
  | succ i =>
      have hshift : wrapped h.size (index + (i + 1)) =
          wrapped h.size (buffer.index.toNat + i) := by
        rw [wrapped, wrapped]
        split at hindex <;> split <;> split <;> omega
      have hne : index ≠ wrapped h.size (buffer.index.toNat + i) := by
        rw [wrapped]
        split at hindex <;> split <;> omega
      rw [hshift, List.getElem?_set_ne hne, hr.item i (by omega)]
      rfl

theorem incrementCount_toNat (hr : buffer.Represents h) :
    buffer.incrementCount.count.toNat = min (h.count + 1) h.size := by
  have hcount := hr.count
  have hsize := hr.size
  have hle := hr.count_le
  have hbound := hr.size_le
  rw [incrementCount]
  split
  · next hlt =>
      rw [BitVec.lt_def] at hlt
      change (buffer.count + 1).toNat = _
      rw [BitVec.toNat_add]
      change (buffer.count.toNat + 1) % 4294967296 = _
      omega
  · next hge =>
      rw [BitVec.lt_def] at hge
      omega

theorem add (hr : buffer.Represents h) (value : α) :
    ∃ buffer', buffer.phAddItemCircularBuffer value = some buffer' ∧
      buffer'.Represents (h.add value) := by
  have hprevious := hr.toNat_previous
  have hlength := hr.length
  have hplace := hr.index
  have hpos := hr.size_pos
  have hitem := hr.item_set value rfl
  rw [← hprevious] at hitem
  rw [phAddItemCircularBuffer]
  generalize (buffer.index - 1) &&& buffer.sizeMinusOne = index at hprevious hitem ⊢
  have hlt : index.toNat < h.size := by
    rw [hprevious]
    split <;> omega
  have hcount := hr.incrementCount_toNat
  refine ⟨incrementCount { buffer with
    index := index
    data := buffer.data.set index.toNat (some value) }, ?_, ?_⟩
  · rw [setData, if_pos (hlt.trans_eq hlength.symm)]
    rfl
  · rw [incrementCount] at hcount ⊢
    have hknown : (h.add value).count ≤ (h.add value).items.length :=
      (min_le_left _ _).trans (Nat.succ_le_succ hr.known)
    have hdata : (buffer.data.set index.toNat (some value)).length = h.size :=
      List.length_set.trans hlength
    have hmin : (h.add value).count ≤ (h.add value).size := min_le_right _ _
    have htail : index.toNat = 0 ∨ h.size - index.toNat ≤ min (h.count + 1) h.size := by
      have := hr.tail
      split at hprevious <;> omega
    split at hcount
    · next hless =>
        rw [if_pos hless]
        exact ⟨hr.size, hr.power, hr.sizeMinusOne, hdata, hcount, hmin, hknown, hlt, htail, hitem⟩
    · next hfull =>
        rw [if_neg hfull]
        exact ⟨hr.size, hr.power, hr.sizeMinusOne, hdata, hcount, hmin, hknown, hlt, htail, hitem⟩

theorem add2 (hr : buffer.Represents h) (value : α) :
    (buffer.phAddItemCircularBuffer2 value).map Prod.snd =
      buffer.phAddItemCircularBuffer value := by
  have hprevious := hr.toNat_previous
  have hplace := hr.index
  have hpos := hr.size_pos
  rw [phAddItemCircularBuffer2, phAddItemCircularBuffer]
  generalize (buffer.index - 1) &&& buffer.sizeMinusOne = index at hprevious ⊢
  have hlt : index.toNat < buffer.data.length := by
    rw [hr.length, hprevious]
    split <;> omega
  rw [setData, if_pos hlt, List.getElem?_eq_getElem hlt]
  rfl

/-! ## Clearing and resizing -/

theorem clear (hr : buffer.Represents h) :
    buffer.phClearCircularBuffer.Represents ⟨h.size, 0, []⟩ where
  size := hr.size
  power := hr.power
  sizeMinusOne := hr.sizeMinusOne
  length := hr.length
  count := rfl
  count_le := Nat.zero_le _
  known := le_rfl
  index := hr.size_pos
  tail := Or.inl rfl
  item := fun i hi => absurd hi (Nat.not_lt_zero i)

theorem toNat_tailSize (hr : buffer.Represents h) :
    (buffer.size - buffer.index).toNat = h.size - buffer.index.toNat := by
  rw [toNat_sub_of_le (by rw [hr.size]; exact hr.index.le), hr.size]

theorem moved (hr : buffer.Represents h) {newSize : ULong} (hvalid : ValidSize newSize)
    {data : List (Option α)} (hlength : data.length = roundedSize newSize) {count : ULong}
    (hcount : count.toNat = min h.count (roundedSize newSize))
    (hdata : ∀ i < min h.count (roundedSize newSize), data[i]? =
      buffer.data[wrapped h.size (buffer.index.toNat + i)]?) :
    Represents ⟨phRoundUpToPowerOfTwo newSize, phRoundUpToPowerOfTwo newSize - 1, count, 0, data⟩
      ⟨roundedSize newSize, min h.count (roundedSize newSize), h.items⟩ where
  size := toNat_rounded hvalid
  power := ⟨_, Nat.clog_le_of_le_pow hvalid.2, rfl⟩
  sizeMinusOne := rfl
  length := hlength
  count := hcount
  count_le := min_le_right _ _
  known := (min_le_left _ _).trans hr.known
  index := (roundedSize_le hvalid).1
  tail := Or.inl rfl
  item := by
    intro i hi
    have hi' : i < h.count ∧ i < roundedSize newSize := lt_min_iff.mp hi
    have hsame : wrapped (roundedSize newSize) (0 + i) = i := by
      rw [wrapped, if_pos (by omega), Nat.zero_add]
    exact (congrArg (fun place => data[place]?) hsame).trans
      ((hdata i hi).trans (hr.item i hi'.1))

end Represents

/-- A buffer that is to grow is full, or its index has moved. -/
def MayResize (buffer : PhCircularBuffer α) (newSize : ULong) : Prop :=
  buffer.size < phRoundUpToPowerOfTwo newSize → buffer.index = 0 → buffer.count = buffer.size


namespace Represents

theorem mayResize_iff (hr : buffer.Represents h) {newSize : ULong}
    (hgrow : buffer.size < phRoundUpToPowerOfTwo newSize) :
    buffer.MayResize newSize ↔ h.size - buffer.index.toNat ≤ h.count := by
  have hcount := hr.count
  have hsize := hr.size
  constructor
  · intro hmay
    rcases hr.tail with hzero | htail
    · have hfull := congrArg BitVec.toNat (hmay hgrow (BitVec.eq_of_toNat_eq hzero))
      omega
    · exact htail
  · intro htail _ hzero
    have hplace : buffer.index.toNat = 0 := congrArg BitVec.toNat hzero
    have hle := hr.count_le
    exact BitVec.eq_of_toNat_eq (by omega)

theorem grow (hr : buffer.Represents h) {newSize : ULong} (hvalid : ValidSize newSize)
    (hgrow : buffer.size < phRoundUpToPowerOfTwo newSize)
    (htail : h.size - buffer.index.toNat ≤ h.count) :
    ∃ buffer', buffer.phResizeCircularBuffer newSize = some buffer' ∧
      buffer'.Represents (h.step (.resize newSize)) := by
  have hplace := hr.index
  have hlength := hr.length
  have hle := hr.count_le
  have htailSize := hr.toNat_tailSize
  have hsizes : h.size < roundedSize newSize := by
    rw [BitVec.lt_def, hr.size, toNat_rounded hvalid] at hgrow
    exact hgrow
  have hheadSize : (buffer.count - (buffer.size - buffer.index)).toNat =
      h.count - (h.size - buffer.index.toNat) := by
    rw [toNat_sub_of_le (by rw [htailSize, hr.count]; exact htail), htailSize, hr.count]
  have hnew : (List.replicate (phRoundUpToPowerOfTwo newSize).toNat (none : Option α)).length =
      roundedSize newSize := List.length_replicate.trans (toNat_rounded hvalid)
  have hne : phRoundUpToPowerOfTwo newSize ≠ buffer.size := (BitVec.ne_of_lt hgrow).symm
  obtain ⟨tail, htailCopy, htailLength, htailData⟩ :=
    copyItems_some (List.replicate (phRoundUpToPowerOfTwo newSize).toNat none) buffer.data 0
      buffer.index (buffer.size - buffer.index) (by omega) (by change 0 + _ ≤ _; omega)
  obtain ⟨data, hcopy, hdataLength, hdata⟩ :=
    copyItems_some tail buffer.data (buffer.size - buffer.index) 0 (buffer.count - (buffer.size -
      buffer.index)) (by change 0 + _ ≤ _; omega) (by omega)
  refine ⟨_, ?_, hr.moved hvalid (hdataLength.trans (htailLength.trans hnew))
    (hr.count.trans (min_eq_left (by omega)).symm) fun i hi => ?_⟩
  · simp only [phResizeCircularBuffer, if_neg hne, if_pos hgrow, htailCopy]
    exact congrArg (· >>= _) hcopy
  · rw [hdata, htailData, htailSize, hheadSize]
    change (if _ then buffer.data[0 + (i - (h.size - buffer.index.toNat))]?
      else if 0 ≤ i ∧ i < 0 + _ then buffer.data[buffer.index.toNat + (i - 0)]? else _) = _
    rw [wrapped]
    by_cases hlow : buffer.index.toNat + i < h.size
    · rw [if_neg (by omega), if_pos (by omega), if_pos hlow, Nat.sub_zero]
    · rw [if_pos (by omega), if_neg hlow]
      congr 1
      omega

theorem shrink (hr : buffer.Represents h) {newSize : ULong} (hvalid : ValidSize newSize)
    (hne : phRoundUpToPowerOfTwo newSize ≠ buffer.size)
    (hgrow : ¬ buffer.size < phRoundUpToPowerOfTwo newSize) :
    ∃ buffer', buffer.phResizeCircularBuffer newSize = some buffer' ∧
      buffer'.Represents (h.step (.resize newSize)) := by
  have hplace := hr.index
  have hlength := hr.length
  have htailSize := hr.toNat_tailSize
  have hrounded := toNat_rounded hvalid
  have hsizes : roundedSize newSize ≤ h.size := by
    rw [BitVec.lt_def, hr.size, hrounded] at hgrow
    exact Nat.le_of_not_lt hgrow
  have hnew : (List.replicate (phRoundUpToPowerOfTwo newSize).toNat (none : Option α)).length =
      roundedSize newSize := List.length_replicate.trans hrounded
  have hcount : (if phRoundUpToPowerOfTwo newSize < buffer.count then phRoundUpToPowerOfTwo newSize
      else buffer.count).toNat = min h.count (roundedSize newSize) := by
    have hc := hr.count
    split
    · next hlt =>
        rw [BitVec.lt_def] at hlt
        omega
    · next hge =>
        rw [BitVec.lt_def] at hge
        omega
  have hmoved := fun (data : List (Option α)) hdataLength hdata =>
    @moved _ _ _ hr newSize hvalid data hdataLength _ hcount hdata
  by_cases htail : phRoundUpToPowerOfTwo newSize ≤ buffer.size - buffer.index
  · have htail' : roundedSize newSize ≤ h.size - buffer.index.toNat := by
      rw [BitVec.le_def, hrounded, htailSize] at htail
      exact htail
    obtain ⟨data, hcopy, hdataLength, hdata⟩ :=
      copyItems_some (List.replicate (phRoundUpToPowerOfTwo newSize).toNat none) buffer.data 0
        buffer.index (phRoundUpToPowerOfTwo newSize) (by omega) (by change 0 + _ ≤ _; omega)
    refine ⟨_, ?_, hmoved data (hdataLength.trans hnew) fun i hi => ?_⟩
    · simp only [phResizeCircularBuffer, if_neg hne, if_neg hgrow, if_pos htail, hcopy]
      rfl
    · rw [hdata]
      change (if 0 ≤ i ∧ i < 0 + _ then buffer.data[buffer.index.toNat + (i - 0)]? else _) = _
      rw [wrapped, if_pos (by omega), if_pos (by omega), Nat.sub_zero]
  · have htail' : h.size - buffer.index.toNat < roundedSize newSize := by
      rw [BitVec.le_def, hrounded, htailSize] at htail
      exact Nat.lt_of_not_le htail
    have hrest : (phRoundUpToPowerOfTwo newSize - (buffer.size - buffer.index)).toNat =
        roundedSize newSize - (h.size - buffer.index.toNat) := by
      rw [toNat_sub_of_le (by rw [htailSize, hrounded]; exact htail'.le), htailSize, hrounded]
    obtain ⟨tail, htailCopy, htailLength, htailData⟩ :=
      copyItems_some (List.replicate (phRoundUpToPowerOfTwo newSize).toNat none) buffer.data 0
        buffer.index (buffer.size - buffer.index) (by omega) (by change 0 + _ ≤ _; omega)
    obtain ⟨data, hcopy, hdataLength, hdata⟩ :=
      copyItems_some tail buffer.data (buffer.size - buffer.index) 0 (phRoundUpToPowerOfTwo newSize
        - (buffer.size - buffer.index)) (by change 0 + _ ≤ _; omega) (by omega)
    refine ⟨_, ?_, hmoved data (hdataLength.trans (htailLength.trans hnew)) fun i hi => ?_⟩
    · simp only [phResizeCircularBuffer, if_neg hne, if_neg hgrow, if_neg htail, htailCopy]
      exact congrArg (· >>= _) hcopy
    · rw [hdata, htailData, htailSize, hrest]
      change (if _ then buffer.data[0 + (i - (h.size - buffer.index.toNat))]?
        else if 0 ≤ i ∧ i < 0 + _ then buffer.data[buffer.index.toNat + (i - 0)]? else _) = _
      rw [wrapped]
      by_cases hlow : buffer.index.toNat + i < h.size
      · rw [if_neg (by omega), if_pos (by omega), if_pos hlow, Nat.sub_zero]
      · rw [if_pos (by omega), if_neg hlow]
        congr 1
        omega

end Represents


namespace Represents

theorem resize (hr : buffer.Represents h) {newSize : ULong} (hvalid : ValidSize newSize)
    (hmay : buffer.MayResize newSize) :
    ∃ buffer', buffer.phResizeCircularBuffer newSize = some buffer' ∧
      buffer'.Represents (h.step (.resize newSize)) := by
  by_cases hsame : phRoundUpToPowerOfTwo newSize = buffer.size
  · have hsize : roundedSize newSize = h.size := by
      rw [← toNat_rounded hvalid, hsame, hr.size]
    refine ⟨buffer, ?_, ?_⟩
    · simp only [phResizeCircularBuffer, if_pos hsame]
    · rw [History.step, hsize, min_eq_left hr.count_le]
      exact hr
  · by_cases hgrow : buffer.size < phRoundUpToPowerOfTwo newSize
    · exact hr.grow hvalid hgrow ((hr.mayResize_iff hgrow).mp hmay)
    · exact hr.shrink hvalid hsame hgrow

theorem resize_none (hr : buffer.Represents h) {newSize : ULong}
    (hmay : ¬ buffer.MayResize newSize) : buffer.phResizeCircularBuffer newSize = none := by
  have hgrow : buffer.size < phRoundUpToPowerOfTwo newSize := by
    by_contra hno
    exact hmay fun hgrow => absurd hgrow hno
  have htail := (hr.mayResize_iff hgrow).not.mp hmay
  have hne : phRoundUpToPowerOfTwo newSize ≠ buffer.size := (BitVec.ne_of_lt hgrow).symm
  have hhead : buffer.data.length < (buffer.count - (buffer.size - buffer.index)).toNat := by
    have hcount := hr.count
    have hlength := hr.length
    have hbound := hr.size_le
    have htailSize := hr.toNat_tailSize
    rw [BitVec.toNat_sub]
    change _ < (4294967296 - _ + _) % 4294967296
    omega
  simp only [phResizeCircularBuffer, if_neg hne, if_pos hgrow, copyItems_none hhead]
  cases copyItems (List.replicate (phRoundUpToPowerOfTwo newSize).toNat none) 0 buffer.data
    buffer.index (buffer.size - buffer.index) <;> rfl

/-! ## Reading -/

theorem get (hr : buffer.Represents h) {index : BitVec 32} (hindex : index.toNat < h.count) :
    buffer.phGetItemCircularBuffer index = some h.items[index.toNat]? := by
  have hplace := hr.index
  have hle := hr.count_le
  have hbound := hr.size_le
  have hsum : (buffer.index + index).toNat = buffer.index.toNat + index.toNat := by
    rw [BitVec.toNat_add]
    change _ % 4294967296 = _
    omega
  rw [phGetItemCircularBuffer, hr.toNat_and, hsum, mod_eq_wrapped (by omega)]
  exact hr.item index.toNat hindex

theorem copy (hr : buffer.Represents h) {destination : List (Option α)} {count : ULong}
    (hdestination : destination.length = count.toNat) :
    buffer.phCopyCircularBuffer destination count =
      some ((h.items.take (min count.toNat h.count)).map some ++
        destination.drop (min count.toNat h.count)) := by
  have hplace := hr.index
  have hle := hr.count_le
  have hlength := hr.length
  have hknown := hr.known
  have htailSize := hr.toNat_tailSize
  have hkept : (if buffer.count < count then buffer.count else count).toNat =
      min count.toNat h.count := by
    have hcount := hr.count
    split
    · next hlt =>
        rw [BitVec.lt_def] at hlt
        omega
    · next hge =>
        rw [BitVec.lt_def] at hge
        omega
  generalize hn : min count.toNat h.count = n at hkept ⊢
  have hspec : ∀ data : List (Option α), data.length = destination.length →
      (∀ i : Nat, data[i]? = if i < n then buffer.data[wrapped h.size (buffer.index.toNat + i)]?
        else destination[i]?) →
      data = (h.items.take n).map some ++ destination.drop n := by
    intro data hdataLength hdata
    have htaken : ((h.items.take n).map (some : α → Option α)).length = n := by
      rw [List.length_map, List.length_take]
      omega
    refine List.ext_getElem? fun i => ?_
    rw [hdata]
    split
    · next hlt =>
        rw [List.getElem?_append_left (htaken.symm ▸ hlt), hr.item i (by omega),
          List.getElem?_map, List.getElem?_take_of_lt hlt, List.getElem?_eq_getElem (by omega)]
        rfl
    · next hge =>
        rw [List.getElem?_append_right (by omega), htaken, List.getElem?_drop,
          Nat.add_sub_cancel' (Nat.le_of_not_lt hge)]
  rw [phCopyCircularBuffer]
  generalize (if buffer.count < count then buffer.count else count) = kept at hkept ⊢
  split
  · next htail =>
      rw [BitVec.le_def, htailSize] at htail
      obtain ⟨data, hcopy, hdataLength, hdata⟩ :=
        copyItems_some destination buffer.data 0 buffer.index kept (by omega)
          (by change 0 + _ ≤ _; omega)
      rw [hcopy, hspec data hdataLength fun i => ?_]
      rw [hdata, hkept]
      change (if 0 ≤ i ∧ i < 0 + n then buffer.data[buffer.index.toNat + (i - 0)]? else _) = _
      by_cases hlt : i < n
      · rw [if_pos (by omega), if_pos hlt, wrapped, if_pos (by omega), Nat.sub_zero]
      · rw [if_neg (by omega), if_neg hlt]
  · next htail =>
      rw [BitVec.le_def, htailSize] at htail
      have hrest : (kept - (buffer.size - buffer.index)).toNat =
          n - (h.size - buffer.index.toNat) := by
        rw [toNat_sub_of_le (by omega), htailSize, hkept]
      obtain ⟨tail, htailCopy, htailLength, htailData⟩ :=
        copyItems_some destination buffer.data 0 buffer.index (buffer.size - buffer.index) (by
          omega) (by change 0 + _ ≤ _; omega)
      obtain ⟨data, hcopy, hdataLength, hdata⟩ :=
        copyItems_some tail buffer.data (buffer.size - buffer.index) 0 (kept - (buffer.size -
          buffer.index)) (by change 0 + _ ≤ _; omega) (by omega)
      rw [htailCopy]
      refine hcopy.trans (congrArg some (hspec data (hdataLength.trans htailLength) fun i => ?_))
      rw [hdata, htailData, htailSize, hrest]
      change (if _ then buffer.data[0 + (i - (h.size - buffer.index.toNat))]?
        else if 0 ≤ i ∧ i < 0 + _ then buffer.data[buffer.index.toNat + (i - 0)]? else _) = _
      rw [wrapped]
      by_cases hlow : buffer.index.toNat + i < h.size
      · rw [if_neg (by omega), if_pos (by omega), if_pos (by omega), if_pos hlow, Nat.sub_zero]
      · rw [if_neg hlow]
        by_cases hlt : i < n
        · rw [if_pos (by omega), if_pos hlt]
          congr 1
          omega
        · rw [if_neg (by omega), if_neg (by omega), if_neg hlt]

end Represents

/-! ## Runs -/

def history (size : ULong) (operations : List (Operation α)) : History α :=
  operations.foldl History.step (History.start size)

/-- The calls stay inside of the arrays, and afterwards the buffer shows their history. -/
def ShowsHistory (size : ULong) (operations : List (Operation α)) : Prop :=
  let h := history size operations
  ∃ buffer, run size operations = some buffer ∧
    buffer.count.toNat = h.count ∧ h.count ≤ h.items.length ∧
    (∀ index : BitVec 32, index.toNat < h.count →
      buffer.phGetItemCircularBuffer index = some h.items[index.toNat]?) ∧
    ∀ (count : ULong) (destination : List (Option α)), destination.length = count.toNat →
      buffer.phCopyCircularBuffer destination count =
        some ((h.items.take (min count.toNat h.count)).map some ++
          destination.drop (min count.toNat h.count))

theorem Represents.perform (hr : buffer.Represents h) {operation : Operation α}
    (hvalid : operation.Valid)
    (hmay : ∀ newSize, operation = .resize newSize → buffer.MayResize newSize) :
    ∃ buffer', buffer.perform operation = some buffer' ∧
      buffer'.Represents (h.step operation) := by
  cases operation with
  | add value => exact hr.add value
  | add2 value =>
      rw [PhCircularBuffer.perform, hr.add2]
      exact hr.add value
  | clear => exact ⟨_, rfl, hr.clear⟩
  | resize newSize => exact hr.resize hvalid (hmay newSize rfl)

theorem Represents.perform_none (hr : buffer.Represents h) {operation : Operation α}
    (hmay : ¬ ∀ newSize, operation = .resize newSize → buffer.MayResize newSize) :
    buffer.perform operation = none := by
  rw [not_forall] at hmay
  obtain ⟨newSize, hmay⟩ := hmay
  rw [Classical.not_imp] at hmay
  obtain ⟨rfl, hno⟩ := hmay
  exact hr.resize_none hno

/-- Some calls show their history exactly when no buffer grows that is not full and whose index
is 0. -/
theorem phCircularBuffer_showsHistory {size : ULong} (hsize : ValidSize size)
    {operations : List (Operation α)} (hvalid : ∀ operation ∈ operations, operation.Valid) :
    ShowsHistory size operations ↔
      ∀ before newSize after, operations = before ++ .resize newSize :: after →
        ∀ buffer, run size before = some buffer → buffer.MayResize newSize := by
  have hgood : ∀ (buffer : PhCircularBuffer α) (h : History α) (operation : Operation α),
      buffer.Represents h → operation.Valid →
      (∀ newSize, operation = .resize newSize → buffer.MayResize newSize) →
      ∃ buffer', buffer.perform operation = some buffer' ∧ buffer'.Represents (h.step operation) :=
    fun _ _ _ hr hok hmay => hr.perform hok hmay
  have hbad : ∀ (buffer : PhCircularBuffer α) (h : History α) (operation : Operation α),
      buffer.Represents h → operation.Valid →
      (¬ ∀ newSize, operation = .resize newSize → buffer.MayResize newSize) →
      buffer.perform operation = none := fun _ _ _ hr _ hmay => hr.perform_none hmay
  have hruns := Runs.foldlM_isSome_iff hgood hbad (represents_start hsize) hvalid
  have hstep : ∀ (buffer : PhCircularBuffer α) (h : History α) (operation : Operation α)
      (buffer' : PhCircularBuffer α), buffer.Represents h → operation.Valid →
      buffer.perform operation = some buffer' → buffer'.Represents (h.step operation) := by
    intro buffer h operation buffer' hr hok hperform
    by_cases hmay : ∀ newSize, operation = .resize newSize → buffer.MayResize newSize
    · obtain ⟨_, hperform', hr'⟩ := hr.perform hok hmay
      rw [hperform, Option.some.injEq] at hperform'
      exact hperform' ▸ hr'
    · rw [hr.perform_none hmay] at hperform
      cases hperform
  have hcondition : (∀ before operation after, operations = before ++ operation :: after →
      ∀ buffer, run size before = some buffer →
        ∀ newSize, operation = .resize newSize → buffer.MayResize newSize) ↔
      ∀ before newSize after, operations = before ++ .resize newSize :: after →
        ∀ buffer, run size before = some buffer → buffer.MayResize newSize := by
    constructor
    · intro hall before newSize after hsplit buffer hrun
      exact hall before _ after hsplit buffer hrun newSize rfl
    · rintro hall before operation after hsplit buffer hrun newSize rfl
      exact hall before newSize after hsplit buffer hrun
  rw [← hcondition]
  refine Iff.trans ⟨?_, fun hsome => ?_⟩ hruns
  · rintro ⟨buffer, hrun, -⟩
    exact Option.isSome_iff_exists.mpr ⟨buffer, hrun⟩
  · obtain ⟨buffer, hrun⟩ := Option.isSome_iff_exists.mp hsome
    have hr : buffer.Represents (history size operations) :=
      Runs.foldlM_simulates hstep (represents_start hsize) hvalid hrun
    exact ⟨buffer, hrun, hr.count, hr.known, fun _ => hr.get, fun _ _ => hr.copy⟩

/-- An empty buffer grows. -/
theorem phResizeCircularBuffer_overruns :
    ¬ ShowsHistory 1 [(.resize 2 : Operation Nat)] := by
  rintro ⟨buffer, hrun, -⟩
  have hnone : (run 1 [(.resize 2 : Operation Nat)]).isSome = false := by decide +kernel
  rw [hrun] at hnone
  cases hnone

/-- A full buffer grows. -/
theorem phCircularBuffer_showsHistory_full :
    ShowsHistory 2 [.add 1, .add2 2, .resize 3] :=
  (phCircularBuffer_showsHistory (by decide) (by decide)).mpr fun before newSize after hsplit => by
    rcases before with _ | ⟨_, _ | ⟨_, _ | ⟨_, before⟩⟩⟩
    · cases hsplit
    · cases hsplit
    · cases hsplit
      rintro buffer hrun - -
      cases hrun
      decide
    · simp only [List.cons_append, List.cons.injEq] at hsplit
      exact absurd hsplit.2.2.2.symm (List.append_ne_nil_of_right_ne_nil _ (List.cons_ne_nil _ _))

end PhCircularBuffer

end SystemInformer.PhLib
