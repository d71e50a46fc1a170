import Mathlib

/-!
# Writing into a list

Elements are put into a list from a position on, over what was there; a gap between the end of
the list and the position is filled. Writing nothing leaves the list as it is, also when the
position is beyond its end. Two writes of which the second begins where the first ends are one.
-/

namespace Overlay

variable {α : Type*}

def overlay (fill : α) (l : List α) (position : Nat) (data : List α) : List α :=
  if data = [] then l
  else
    l.take position ++ List.replicate (position - l.length) fill ++ data ++
      l.drop (position + data.length)

variable {fill : α} {l data data' : List α} {position : Nat}

@[simp] theorem overlay_nil : overlay fill l position [] = l := if_pos rfl

theorem overlay_zero : overlay fill l 0 data = data ++ l.drop data.length := by
  rw [overlay]
  split
  · next h => rw [h, List.length_nil, List.drop_zero, List.nil_append]
  · rw [List.take_zero, Nat.zero_sub, List.replicate_zero, Nat.zero_add, List.nil_append,
      List.nil_append]

theorem length_overlay : (overlay fill l position data).length =
    if data = [] then l.length else max l.length (position + data.length) := by
  rw [overlay]
  split
  · rfl
  · simp only [List.length_append, List.length_take, List.length_replicate, List.length_drop]
    omega

theorem length_overlay_le (fill : α) (l : List α) (position : Nat) (data : List α) :
    (overlay fill l position data).length ≤ max l.length (position + data.length) := by
  rw [length_overlay]
  split
  · exact le_max_left _ _
  · exact le_rfl

/-- What stands at a place after something was written. -/
theorem getElem?_overlay (hdata : data ≠ []) (i : Nat) : (overlay fill l position data)[i]? =
    if i < position then if i < l.length then l[i]? else some fill
    else if i < position + data.length then data[i - position]? else l[i]? := by
  have hhead : (l.take position ++ List.replicate (position - l.length) fill).length = position := by
    rw [List.length_append, List.length_take, List.length_replicate]
    omega
  rw [overlay, if_neg hdata, List.append_assoc]
  by_cases hlow : i < position
  · rw [if_pos hlow, List.getElem?_append_left (hhead.symm ▸ hlow)]
    by_cases hin : i < l.length
    · rw [if_pos hin, List.getElem?_append_left (by rw [List.length_take]; omega),
        List.getElem?_take_of_lt hlow]
    · rw [if_neg hin, List.getElem?_append_right (by rw [List.length_take]; omega),
        List.getElem?_replicate_of_lt (by rw [List.length_take]; omega)]
  · rw [if_neg hlow, List.getElem?_append_right (by omega), hhead]
    by_cases hmid : i < position + data.length
    · rw [if_pos hmid, List.getElem?_append_left (by omega)]
    · rw [if_neg hmid, List.getElem?_append_right (by omega), List.getElem?_drop]
      congr 1
      omega

/-- A write that begins where another ended is part of it. -/
theorem overlay_append : overlay fill (overlay fill l position data) (position + data.length) data' =
    overlay fill l position (data ++ data') := by
  by_cases hdata : data = []
  · subst hdata
    rw [overlay_nil, List.length_nil, Nat.add_zero, List.nil_append]
  by_cases hdata' : data' = []
  · subst hdata'
    rw [overlay_nil, List.append_nil]
  have hlength : (overlay fill l position data).length = max l.length (position + data.length) := by
    rw [length_overlay, if_neg hdata]
  refine List.ext_getElem? fun i => ?_
  rw [getElem?_overlay hdata', getElem?_overlay hdata,
    getElem?_overlay (List.append_ne_nil_of_left_ne_nil hdata _), hlength, List.length_append]
  by_cases hlow : i < position
  · rw [if_pos (by omega), if_pos (by omega), if_pos hlow, if_pos hlow]
  · rw [if_neg hlow, if_neg hlow]
    by_cases hmid : i < position + data.length
    · rw [if_pos hmid, if_pos (by omega), if_pos hmid, if_pos (by omega),
        List.getElem?_append_left (by omega)]
    · rw [if_neg hmid, if_neg hmid]
      by_cases hhigh : i < position + data.length + data'.length
      · rw [if_pos hhigh, if_pos (by omega), List.getElem?_append_right (by omega)]
        congr 1
        omega
      · rw [if_neg hhigh, if_neg (by omega)]

end Overlay
