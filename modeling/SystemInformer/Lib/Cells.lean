import SystemInformer.Lib.Overlay

/-!
# Blocks of cells

A block of memory is a list of cells, and a cell that was never written holds nothing. A write or
a move that would leave the block has no result.

What a program knows of the front of a block is a list as well, in which `none` stands for a cell
that anything may be in (`Holds`). The lemmas follow what is known through the operations that
containers are built of: writing after the end or in the middle, opening a gap, closing one, and
moving to a block of another size.
-/

namespace Cells

open Overlay

variable {α : Type*}

/-- `data` is put into the cells from a position on. -/
def write (cells : List (Option α)) (position : Nat) (data : List (Option α)) :
    Option (List (Option α)) :=
  if position + data.length ≤ cells.length then some (overlay none cells position data) else none

/-- Cells are copied to another position; the two ranges may overlap. -/
def move (cells : List (Option α)) (destination source count : Nat) :
    Option (List (Option α)) :=
  if source + count ≤ cells.length then
    write cells destination ((cells.drop source).take count)
  else none

def resize (cells : List (Option α)) (size : Nat) : List (Option α) :=
  cells.take size ++ List.replicate (size - cells.length) none

def Holds (cells known : List (Option α)) : Prop :=
  known.length ≤ cells.length ∧
    ∀ (i : Nat) (x : α), known[i]? = some (some x) → cells[i]? = some (some x)

variable {cells known data : List (Option α)} {position size : Nat}

@[simp] theorem length_resize : (resize cells size).length = size := by
  rw [resize, List.length_append, List.length_take, List.length_replicate]
  omega

theorem getElem?_overlay_of_le (h : position + data.length ≤ cells.length) (i : Nat) :
    (overlay none cells position data)[i]? =
      if position ≤ i ∧ i < position + data.length then data[i - position]? else cells[i]? := by
  by_cases hdata : data = []
  · subst hdata
    rw [overlay_nil, if_neg (by rw [List.length_nil]; omega)]
  · rw [getElem?_overlay hdata]
    by_cases hlow : i < position
    · rw [if_pos hlow, if_pos (by omega), if_neg (by omega)]
    · rw [if_neg hlow]
      by_cases hin : i < position + data.length
      · rw [if_pos hin, if_pos ⟨by omega, hin⟩]
      · rw [if_neg hin, if_neg (by omega)]

theorem length_overlay_of_le (h : position + data.length ≤ cells.length) :
    (overlay none cells position data).length = cells.length := by
  rw [length_overlay]
  split
  · rfl
  · omega

theorem holds_nil : Holds cells [] :=
  ⟨Nat.zero_le _, fun _ _ h => nomatch h⟩

theorem Holds.resize (h : Holds cells known) (hsize : known.length ≤ size) :
    Holds (resize cells size) known := by
  refine ⟨by rw [length_resize]; exact hsize, fun i x hx => ?_⟩
  have hi : i < known.length := (List.getElem?_eq_some_iff.mp hx).1
  have hlength := h.1
  rw [Cells.resize, List.getElem?_append_left (by rw [List.length_take]; omega),
    List.getElem?_take_of_lt (by omega)]
  exact h.2 i x hx

/-- Less is known. -/
theorem Holds.front {more : List (Option α)} (h : Holds cells (known ++ more)) :
    Holds cells known := by
  have hlength := h.1
  rw [List.length_append] at hlength
  refine ⟨by omega, fun i x hx => h.2 i x ?_⟩
  rw [List.getElem?_append_left (List.getElem?_eq_some_iff.mp hx).1]
  exact hx

/-- Cells behind the known ones count as known to hold anything. -/
theorem Holds.extend (h : Holds cells known) {n : Nat} (hroom : known.length + n ≤ cells.length) :
    Holds cells (known ++ List.replicate n none) := by
  refine ⟨by rw [List.length_append, List.length_replicate]; exact hroom, fun i x hx => ?_⟩
  by_cases hi : i < known.length
  · rw [List.getElem?_append_left hi] at hx
    exact h.2 i x hx
  · rw [List.getElem?_append_right (by omega), List.getElem?_replicate] at hx
    split at hx <;> simp at hx

theorem Holds.write (h : Holds cells known) (hposition : position ≤ known.length)
    (hroom : position + data.length ≤ cells.length) :
    ∃ cells', write cells position data = some cells' ∧ cells'.length = cells.length ∧
      Holds cells' (known.take position ++ data ++ known.drop (position + data.length)) := by
  refine ⟨_, if_pos hroom, length_overlay_of_le hroom, ?_, fun i x hx => ?_⟩
  · rw [length_overlay_of_le hroom]
    simp only [List.length_append, List.length_take, List.length_drop]
    have := h.1
    omega
  · rw [getElem?_overlay_of_le hroom]
    have htake : (known.take position).length = position := by
      rw [List.length_take]
      omega
    by_cases hlow : i < position
    · rw [if_neg (by omega)]
      rw [List.append_assoc, List.getElem?_append_left (by omega),
        List.getElem?_take_of_lt hlow] at hx
      exact h.2 i x hx
    · rw [List.append_assoc, List.getElem?_append_right (by omega), htake] at hx
      by_cases hin : i < position + data.length
      · rw [if_pos ⟨by omega, hin⟩]
        rwa [List.getElem?_append_left (by omega)] at hx
      · rw [if_neg (by omega)]
        rw [List.getElem?_append_right (by omega), List.getElem?_drop] at hx
        refine h.2 i x ?_
        rw [← hx]
        congr 1
        omega

theorem Holds.write_end (h : Holds cells known)
    (hroom : known.length + data.length ≤ cells.length) :
    ∃ cells', Cells.write cells known.length data = some cells' ∧
      cells'.length = cells.length ∧ Holds cells' (known ++ data) := by
  obtain ⟨cells', hrun, hlength, hholds⟩ := h.write (Nat.le_refl _) hroom
  rw [List.take_length, List.drop_eq_nil_of_le (by omega), List.append_nil] at hholds
  exact ⟨cells', hrun, hlength, hholds⟩

/-- The front of a block is copied to another one. -/
theorem Holds.copy_front (h : Holds cells known) {block : List (Option α)} {n : Nat}
    (hknown : known.length ≤ n) (hn : n ≤ cells.length) (hroom : n ≤ block.length) :
    ∃ block', Cells.write block 0 (cells.take n) = some block' ∧
      block'.length = block.length ∧ Holds block' known := by
  have htake : (cells.take n).length = n := by
    rw [List.length_take]
    omega
  have hfits : 0 + (cells.take n).length ≤ block.length := by
    rw [htake]
    omega
  refine ⟨_, if_pos hfits, length_overlay_of_le hfits, ?_, fun i x hx => ?_⟩
  · rw [length_overlay_of_le hfits]
    omega
  · have hi := (List.getElem?_eq_some_iff.mp hx).1
    rw [getElem?_overlay_of_le hfits, if_pos (by omega), Nat.sub_zero,
      List.getElem?_take_of_lt (by omega)]
    exact h.2 i x hx

/-- What stands where after the known cells from `source` on were moved. -/
theorem Holds.move (h : Holds cells known) {destination source : Nat}
    (hsource : source ≤ known.length)
    (hroom : destination + (known.length - source) ≤ cells.length) :
    ∃ cells', move cells destination source (known.length - source) = some cells' ∧
      cells'.length = cells.length ∧
      (∀ (i : Nat) (x : α), i < destination → known[i]? = some (some x) → cells'[i]? = some (some x)) ∧
      ∀ (i : Nat) (x : α), known[source + i]? = some (some x) → cells'[destination + i]? = some (some x) := by
  have hlength := h.1
  have hcount : ((cells.drop source).take (known.length - source)).length =
      known.length - source := by
    rw [List.length_take, List.length_drop]
    omega
  have hfits : destination + ((cells.drop source).take (known.length - source)).length ≤
      cells.length := by
    rw [hcount]
    exact hroom
  refine ⟨_, (if_pos (by omega)).trans (if_pos hfits), length_overlay_of_le hfits,
    fun i x hi hx => ?_, fun i x hx => ?_⟩
  · rw [getElem?_overlay_of_le hfits, if_neg (by omega)]
    exact h.2 i x hx
  · have hi : source + i < known.length := (List.getElem?_eq_some_iff.mp hx).1
    rw [getElem?_overlay_of_le hfits, if_pos ⟨by omega, by omega⟩, Nat.add_sub_cancel_left,
      List.getElem?_take_of_lt (by omega), List.getElem?_drop]
    exact h.2 (source + i) x hx

/-- A gap is opened: the cells from a position on are moved behind it. -/
theorem Holds.openGap (h : Holds cells known) {n : Nat} (hposition : position ≤ known.length)
    (hroom : known.length + n ≤ cells.length) :
    ∃ cells', Cells.move cells (position + n) position (known.length - position) = some cells' ∧
      cells'.length = cells.length ∧
      Holds cells' (known.take position ++ List.replicate n none ++ known.drop position) := by
  have hfits : position + n + (known.length - position) ≤ cells.length := by omega
  obtain ⟨cells', hrun, hlength, hbefore, hmoved⟩ := h.move hposition hfits
  refine ⟨cells', hrun, hlength, ?_, fun i x hx => ?_⟩
  · simp only [List.length_append, List.length_take, List.length_replicate, List.length_drop]
    omega
  · have htake : (known.take position).length = position := by
      rw [List.length_take]
      omega
    rw [List.append_assoc] at hx
    by_cases hlow : i < position
    · rw [List.getElem?_append_left (by omega), List.getElem?_take_of_lt hlow] at hx
      exact hbefore i x (by omega) hx
    · rw [List.getElem?_append_right (by omega), htake] at hx
      by_cases hgap : i - position < n
      · rw [List.getElem?_append_left (by rw [List.length_replicate]; exact hgap),
          List.getElem?_replicate_of_lt hgap] at hx
        cases hx
      · rw [List.getElem?_append_right (by rw [List.length_replicate]; omega),
          List.length_replicate, List.getElem?_drop] at hx
        have hto := hmoved _ x hx
        rwa [show position + n + (i - position - n) = i by omega] at hto

/-- A gap is closed: the cells behind it are moved to its place. -/
theorem Holds.closeGap (h : Holds cells known) {n : Nat}
    (hgap : position + n ≤ known.length) :
    ∃ cells', Cells.move cells position (position + n) (known.length - (position + n)) =
        some cells' ∧
      cells'.length = cells.length ∧
      Holds cells' (known.take position ++ known.drop (position + n)) := by
  have hcells := h.1
  have hfits : position + (known.length - (position + n)) ≤ cells.length := by omega
  obtain ⟨cells', hrun, hlength, hbefore, hmoved⟩ := h.move hgap hfits
  refine ⟨cells', hrun, hlength, ?_, fun i x hx => ?_⟩
  · simp only [List.length_append, List.length_take, List.length_drop]
    omega
  · have htake : (known.take position).length = position := by
      rw [List.length_take]
      omega
    by_cases hlow : i < position
    · rw [List.getElem?_append_left (by omega), List.getElem?_take_of_lt hlow] at hx
      exact hbefore i x hlow hx
    · rw [List.getElem?_append_right (by omega), htake, List.getElem?_drop] at hx
      have hto := hmoved _ x hx
      rwa [show position + (i - position) = i by omega] at hto

/-- A gap is opened and written. -/
theorem Holds.insert (h : Holds cells known) (hposition : position ≤ known.length)
    (hroom : known.length + data.length ≤ cells.length) :
    ∃ cells' cells'',
      Cells.move cells (position + data.length) position (known.length - position) =
        some cells' ∧
      Cells.write cells' position data = some cells'' ∧ cells''.length = cells.length ∧
      Holds cells'' (known.take position ++ data ++ known.drop position) := by
  obtain ⟨cells', hopen, hlength, hgap⟩ := h.openGap hposition hroom
  have htake : (known.take position).length = position := by
    rw [List.length_take]
    omega
  have hat : position ≤ (known.take position ++ List.replicate data.length none ++
      known.drop position).length := by
    simp only [List.length_append]
    omega
  have hfits : position + data.length ≤ cells'.length := by omega
  obtain ⟨cells'', hwrite, hlength', hholds⟩ := hgap.write hat hfits
  refine ⟨cells', cells'', hopen, hwrite, hlength'.trans hlength, ?_⟩
  have hfront : (known.take position ++ List.replicate data.length none ++
      known.drop position).take position = known.take position := by
    rw [List.append_assoc, List.take_append_of_le_length (by omega), List.take_of_length_le (by omega)]
  have hback : (known.take position ++ List.replicate data.length none ++
      known.drop position).drop (position + data.length) = known.drop position := by
    refine List.drop_left' ?_
    rw [List.length_append, htake, List.length_replicate]
  rw [hfront, hback] at hholds
  exact hholds

end Cells
