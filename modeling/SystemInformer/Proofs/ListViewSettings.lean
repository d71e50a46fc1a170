import SystemInformer.PhLib.ListViewSettings
import SystemInformer.Proofs.Format
import SystemInformer.Proofs.SettingsAccess

/-!
# Settings of list views survive saving

Both writers put a separator behind each part and cut the last one off, so what they write is the
parts with separators between them (`joinParts`), and a split of it gives the first part and what
is joined of the others. The number of a column or of a group has neither of the separators in it.

The array of orders is the inverse of the orders of the columns that were read
(`ColumnsLoaded.orders`). When all columns were read it is a permutation too, and the control looks
up in it what the columns said.
-/

namespace SystemInformer.PhLib

open Indices

variable {Single Double : Type} {env : FormatEnv Single Double}
  {phUpcaseUnicodeChar : WChar → WChar}

/-! ## Texts -/

theorem length_ulongText_le (v : ULong) : (ulongText 10 v).length ≤ 10 := by
  rw [ulongText, List.length_map, numeral]
  split
  · decide
  · rw [List.length_reverse]
    exact (Nat.digits_length_le_iff (by decide) _).mpr (v.isLt.trans (by decide))

theorem ulongText_ne_nil (v : ULong) : ulongText 10 v ≠ [] := fun h =>
  numeral_ne_nil 10 v.toNat (List.map_eq_nil_iff.mp h)

theorem longText_ne_nil (v : BitVec 32) : longText v ≠ [] := fun h =>
  numeral_ne_nil 10 _ (List.map_eq_nil_iff.mp (List.append_eq_nil_iff.mp h).2)

theorem digit_eq_printed : ∀ d < 10, UInt16.ofNat (0x30 + d) = digitChar d := by decide

theorem printUnsigned_eq (v : ULong) : printUnsigned v = ulongText 10 v := by
  rw [printUnsigned, ulongText, numeral]
  split
  · rfl
  · next hne =>
      refine List.map_congr_left fun d hd => digit_eq_printed d ?_
      exact Nat.digits_lt_base (by decide) (List.mem_reverse.mp hd)

theorem printSigned_eq (v : BitVec 32) : printSigned v = longText v := by
  rw [printSigned, longText, signed]
  have hneg : v.toInt < 0 ↔ v.msb = true := by
    rw [BitVec.toInt_neg_iff, BitVec.msb_eq_true_iff_two_mul_ge]
  cases hmsb : v.msb with
  | false =>
      rw [if_neg fun h => Bool.false_ne_true (hmsb.symm.trans (hneg.mp h)), printUnsigned_eq]
      rfl
  | true =>
      rw [if_pos (hneg.mpr hmsb), printUnsigned_eq]
      rfl

theorem appendFormat_eq {format : List (PhFormat Single Double)} {printed : List WChar}
    (stringBuilder : List WChar)
    (hfits : 2 * (formatText env format).length + 2 ≤ formatBufferSize) :
    appendFormat env stringBuilder format printed = stringBuilder ++ formatText env format := by
  have hstart : Holds (bufferMacros formatBufferSize) ⟨fun _ => none, 0, 0, !true⟩ []
      (2 * ([] : List WChar).length) := ⟨fun _ => rfl, rfl, rfl, rfl⟩
  have hparts : Holds (bufferMacros formatBufferSize) _ (formatText env format)
      (2 * (formatText env format).length) :=
    formatParts_holds lawful_bufferMacros format hstart (by rw [List.nil_append]; omega)
  obtain ⟨hsuccess, hreturn, hbuffer⟩ := phFormatToBuffer_fits hparts hfits
  rw [appendFormat]
  simp only [hsuccess, if_true, hreturn, hbuffer, Nat.add_sub_cancel,
    Nat.mul_div_cancel_left _ (by decide : 0 < 2)]
  congr 1
  refine List.ext_getElem (by simp) fun i hi hi' => ?_
  rw [List.getElem_map, List.getElem_range, List.getElem?_append_left hi',
    List.getElem?_eq_getElem hi', Option.getD_some]

/-! ## Parts -/

def joinParts (parts : List (List WChar)) : List WChar :=
  (parts.flatMap (· ++ [0x7c])).dropLast

/-- No character of a part is a separator of parts or a terminator. -/
def IsPart (part : List WChar) : Prop := part ≠ [] ∧ ∀ c ∈ part, c ≠ 0 ∧ c ≠ 0x7c

theorem joinParts_singleton (part : List WChar) : joinParts [part] = part := by
  rw [joinParts, List.flatMap_singleton, List.dropLast_concat]

theorem joinParts_cons {part : List WChar} {parts : List (List WChar)} (h : parts ≠ []) :
    joinParts (part :: parts) = part ++ 0x7c :: joinParts parts := by
  have hne : parts.flatMap (· ++ [(0x7c : WChar)]) ≠ [] := by
    cases parts with
    | nil => exact absurd rfl h
    | cons next rest => simp
  rw [joinParts, List.flatMap_cons, List.dropLast_append_of_ne_nil hne, List.append_assoc]
  rfl

theorem joinParts_cons_cons (c : WChar) (part : List WChar) (parts : List (List WChar)) :
    joinParts ((c :: part) :: parts) = c :: joinParts (part :: parts) := by
  rw [joinParts, List.flatMap_cons, List.cons_append, List.cons_append,
    List.dropLast_cons_of_ne_nil (by simp)]
  rfl

theorem joinParts_ne_nil {part : List WChar} {parts : List (List WChar)} (h : IsPart part) :
    joinParts (part :: parts) ≠ [] := by
  by_cases hparts : parts = []
  · rw [hparts, joinParts_singleton]
    exact h.1
  · rw [joinParts_cons hparts]
    exact fun hnil => h.1 (List.append_eq_nil_iff.mp hnil).1

theorem zero_notMem_joinParts {parts : List (List WChar)} (h : ∀ part ∈ parts, IsPart part) :
    (0 : WChar) ∉ joinParts parts := by
  intro hzero
  obtain ⟨part, hpart, hin⟩ := List.mem_flatMap.mp (List.dropLast_subset _ hzero)
  rcases List.mem_append.mp hin with hin | hin
  · exact ((h part hpart).2 0 hin).1 rfl
  · exact absurd (List.mem_singleton.mp hin) (by decide)

/-! ## Splits -/

theorem splitParts_of_mem {separator : WChar} {first second : List WChar}
    (hfirst : separator ∉ first) (hzero : 0 ∉ first ++ separator :: second) :
    splitParts phUpcaseUnicodeChar (first ++ separator :: second) separator =
      (true, first, second) := by
  rw [splitParts, phSplitStringRefAtChar_eq hfirst hzero]

theorem splitParts_of_notMem {separator : WChar} {input : List WChar} (h : separator ∉ input) :
    splitParts phUpcaseUnicodeChar input separator = (false, input, []) := by
  have huses : ¬ UsesCString ⟨true, true⟩ (.ofChars input) false := fun h =>
    Bool.false_ne_true h.2.1.symm
  have hfirst := @phFindCharInStringRef_first _ phUpcaseUnicodeChar _ _ huses separator
  have hno : ∀ i, ¬ At (· == separator) input i := by
    rintro i ⟨c, hc, heq⟩
    exact h (beq_iff_eq.mp heq ▸ List.mem_of_getElem? hc)
  rw [splitParts, phSplitStringRefAtChar]
  cases hfind : phFindCharInStringRef ⟨true, true⟩ phUpcaseUnicodeChar (.ofChars input) separator
      false with
  | none => rfl
  | some i =>
      rw [hfind] at hfirst
      exact absurd hfirst.2.1 (hno i)

theorem splitParts_joinParts {part : List WChar} {parts : List (List WChar)}
    (h : ∀ p ∈ part :: parts, IsPart p) :
    splitParts phUpcaseUnicodeChar (joinParts (part :: parts)) 0x7c =
      (!parts.isEmpty, part, joinParts parts) := by
  have hno : (0x7c : WChar) ∉ part := fun hin => ((h part List.mem_cons_self).2 _ hin).2 rfl
  cases parts with
  | nil =>
      rw [joinParts_singleton, splitParts_of_notMem hno]
      rfl
  | cons next rest =>
      have hzero := zero_notMem_joinParts h
      rw [joinParts_cons (List.cons_ne_nil _ _)] at hzero ⊢
      rw [splitParts_of_mem hno hzero]
      rfl

theorem splitParts_shorter {input : List WChar} (separator : WChar) (h : input.length ≠ 0) :
    (splitParts phUpcaseUnicodeChar input separator).2.2.length < input.length := by
  rw [splitParts]
  split
  · next first second hsplit =>
      exact length_phSplitStringRefAtChar _ _ (List.length_pos_iff.mp (by omega)) hsplit
  · exact Nat.pos_of_ne_zero h

/-! ## Saving columns -/

def ListViewColumn.text (column : ListViewColumn) : List WChar :=
  ulongText 10 column.order ++ 0x2c :: ulongText 10 column.width

theorem isPart_ulongText (v : ULong) : IsPart (ulongText 10 v) :=
  ⟨ulongText_ne_nil v, fun _ hc => ⟨(ulongText_ne hc).1, (ulongText_ne hc).2.2⟩⟩

theorem isPart_longText (v : BitVec 32) : IsPart (longText v) :=
  ⟨longText_ne_nil v, fun _ hc => ⟨(longText_ne hc).1, (longText_ne hc).2.2⟩⟩

theorem isPart_text (column : ListViewColumn) : IsPart column.text := by
  refine ⟨fun h => (isPart_ulongText column.order).1 (List.append_eq_nil_iff.mp h).1,
    fun c hc => ?_⟩
  rcases List.mem_append.mp hc with hc | hc
  · exact (isPart_ulongText column.order).2 c hc
  · rcases List.mem_cons.mp hc with rfl | hc
    · decide
    · exact (isPart_ulongText column.width).2 c hc

theorem splitParts_text (column : ListViewColumn) :
    splitParts phUpcaseUnicodeChar column.text 0x2c =
      (true, ulongText 10 column.order, ulongText 10 column.width) :=
  splitParts_of_mem (fun hin => (ulongText_ne hin).2.1 rfl) fun hin =>
    ((isPart_text column).2 0 hin).1 rfl

theorem formatText_scale (dpiValue : BitVec 32) :
    formatText env [phInitFormatC 0x40, phInitFormatU dpiValue, phInitFormatC 0x7c] =
      (0x40 :: ulongText 10 dpiValue) ++ [0x7c] := by
  simp only [formatText, List.flatMap_cons, List.flatMap_nil, partText_phInitFormatC,
    partText_phInitFormatU, List.append_nil, List.cons_append, List.nil_append]

theorem formatText_column (column : ListViewColumn) :
    formatText env [phInitFormatU column.order, phInitFormatC 0x2c, phInitFormatU column.width,
      phInitFormatC 0x7c] = column.text ++ [0x7c] := by
  simp only [formatText, ListViewColumn.text, List.flatMap_cons, List.flatMap_nil,
    partText_phInitFormatC, partText_phInitFormatU, List.append_nil, List.cons_append,
    List.nil_append, List.append_assoc]

theorem phSaveListViewColumnSettings_eq (dpiValue : BitVec 32) (columns : List ListViewColumn) :
    phSaveListViewColumnSettings env dpiValue columns =
      joinParts ((0x40 :: ulongText 10 dpiValue) :: columns.map ListViewColumn.text) := by
  have hscale (printed : List WChar) : appendFormat env []
      [phInitFormatC 0x40, phInitFormatU dpiValue, phInitFormatC 0x7c] printed =
        (0x40 :: ulongText 10 dpiValue) ++ [0x7c] := by
    rw [appendFormat_eq, formatText_scale, List.nil_append]
    have hlength := length_ulongText_le dpiValue
    rw [formatText_scale, List.length_append, List.length_cons, List.length_singleton,
      formatBufferSize]
    omega
  have hcolumn (column : ListViewColumn) (stringBuilder printed : List WChar) :
      appendFormat env stringBuilder [phInitFormatU column.order, phInitFormatC 0x2c,
        phInitFormatU column.width, phInitFormatC 0x7c] printed =
          stringBuilder ++ (column.text ++ [0x7c]) := by
    rw [appendFormat_eq, formatText_column]
    have horder := length_ulongText_le column.order
    have hwidth := length_ulongText_le column.width
    rw [formatText_column, ListViewColumn.text, List.length_append, List.length_append,
      List.length_cons, List.length_singleton, formatBufferSize]
    omega
  have hfold : ∀ (columns : List ListViewColumn) (stringBuilder : List WChar),
      columns.foldl (fun stringBuilder column => stringBuilder ++ (column.text ++ [0x7c]))
        stringBuilder =
      stringBuilder ++ (columns.map ListViewColumn.text).flatMap (· ++ [0x7c]) := by
    intro columns
    induction columns with
    | nil => exact fun stringBuilder => (List.append_nil _).symm
    | cons column columns ih =>
        intro stringBuilder
        rw [List.foldl_cons, ih, List.map_cons, List.flatMap_cons]
        exact List.append_assoc _ _ _
  simp only [phSaveListViewColumnSettings, hscale, hcolumn, hfold]
  rw [if_pos (by simp), joinParts, List.flatMap_cons]

/-! ## Loading columns -/

/-- What the loop has done when `done` of the saved columns were read. -/
structure ColumnsLoaded (saved : List ListViewColumn) (done : Nat) (s : ColumnLoad) : Prop where
  remaining : s.remainingPart = joinParts ((saved.drop done).map ListViewColumn.text)
  index : s.columnIndex = BitVec.ofNat 32 done
  length : s.orderArray.length = 50
  orders : ∀ (i : Nat) (hi : i < saved.length), i < done →
    s.orderArray[saved[i].order.toNat]? = some (BitVec.ofNat 32 i)
  maxOrder : ∀ (i : Nat) (hi : i < saved.length), i < done →
    saved[i].order.toNat < s.maxOrder.toNat
  maxOrder_le : s.maxOrder.toNat ≤ saved.length
  columns : s.columns.length = saved.length
  widths : ∀ (i : Nat) (hi : i < saved.length), i < done →
    s.columns[i]?.map (·.width) = some saved[i].width

namespace ColumnsLoaded

variable {saved : List ListViewColumn} {done : Nat} {s : ColumnLoad} {dpi : BitVec 32}

def Permuted (columns : List ListViewColumn) : Prop :=
  (columns.map fun column => column.order.toNat).Perm (List.range columns.length)

theorem order_lt (hperm : Permuted saved) {i : Nat} (hi : i < saved.length) :
    saved[i].order.toNat < saved.length :=
  List.mem_range.mp (hperm.mem_iff.mp (List.mem_map.mpr ⟨_, List.getElem_mem hi, rfl⟩))

theorem order_inj (hperm : Permuted saved) {i j : Nat} (hi : i < saved.length)
    (hj : j < saved.length) (h : saved[i].order.toNat = saved[j].order.toNat) : i = j := by
  have hnodup := hperm.nodup_iff.mpr List.nodup_range
  refine (@List.Nodup.getElem_inj_iff _ _ hnodup i (by rwa [List.length_map]) j
    (by rwa [List.length_map])).mp ?_
  rw [List.getElem_map, List.getElem_map]
  exact h

theorem exists_order (hperm : Permuted saved) {order : Nat} (h : order < saved.length) :
    ∃ (i : Nat) (hi : i < saved.length), saved[i].order.toNat = order := by
  obtain ⟨column, hcolumn, horder⟩ :=
    List.mem_map.mp (hperm.mem_iff.mpr (List.mem_range.mpr h))
  obtain ⟨i, hi, rfl⟩ := List.getElem_of_mem hcolumn
  exact ⟨i, hi, horder⟩

/-- The variables after a pass that read a column. -/
def readColumn (s : ColumnLoad) (column : ListViewColumn) (remaining : List WChar) :
    ColumnLoad where
  remainingPart := remaining
  columnIndex := s.columnIndex + 1
  orderArray := s.orderArray.set column.order.toNat s.columnIndex
  maxOrder := if s.maxOrder < column.order + 1 then column.order + 1 else s.maxOrder
  columns := listViewSetColumn s.columns s.columnIndex column.width

theorem loadColumn_eq (h : ColumnsLoaded saved done s)
    {column : ListViewColumn} {rest : List ListViewColumn} (hcolumn : column.order.toNat < 50)
    (hdrop : saved.drop done = column :: rest) :
    s.loadColumn phUpcaseUnicodeChar dpi dpi =
      .inr (readColumn s column (joinParts (rest.map ListViewColumn.text))) := by
  have hparts : ∀ part ∈ column.text :: rest.map ListViewColumn.text, IsPart part := by
    intro part hpart
    obtain ⟨column, -, rfl⟩ := List.mem_map.mp (List.map_cons (f := ListViewColumn.text) ▸ hpart)
    exact isPart_text column
  have htext : s.remainingPart = joinParts (column.text :: rest.map ListViewColumn.text) := by
    rw [h.remaining, hdrop, List.map_cons]
  obtain ⟨order, horder, hordervalue⟩ :=
    parsedInteger_ulongText (by decide : 2 ≤ 10) (by decide) column.order
  obtain ⟨width, hwidth, hwidthvalue⟩ :=
    parsedInteger_ulongText (by decide : 2 ≤ 10) (by decide) column.width
  have hset (remaining : List WChar) : ColumnLoad.setOrder { s with remainingPart := remaining }
      column.order = some { s with
        remainingPart := remaining
        orderArray := s.orderArray.set column.order.toNat s.columnIndex
        maxOrder := if s.maxOrder < column.order + 1 then column.order + 1 else s.maxOrder } := by
    rw [ColumnLoad.setOrder, if_pos (BitVec.lt_def.mpr hcolumn), if_pos (by rwa [h.length])]
  have hscale : ColumnLoad.scaleWidth column.width dpi dpi = some column.width :=
    if_neg fun h => h.1 rfl
  rw [ColumnLoad.loadColumn, htext, splitParts_joinParts hparts]
  simp only [splitParts_text, List.length_eq_zero_iff, (isPart_text column).1,
    ulongText_ne_nil, or_self, if_false, horder, hordervalue, hset, hwidth, hwidthvalue, hscale]
  rfl

theorem step (hperm : Permuted saved) (hlimit : saved.length < 50) (h : ColumnsLoaded saved done s)
    (hdone : done < saved.length) :
    ColumnsLoaded saved (done + 1) (readColumn s saved[done]
      (joinParts ((saved.drop (done + 1)).map ListViewColumn.text))) := by
  have hlt := order_lt hperm hdone
  have hindex : (BitVec.ofNat 32 done).toNat = done :=
    Nat.mod_eq_of_lt (hdone.trans (hlimit.trans (by decide)))
  have hplus : (saved[done].order + 1).toNat = saved[done].order.toNat + 1 := by
    rw [BitVec.toNat_add]
    exact Nat.mod_eq_of_lt (by show _ + 1 < 2 ^ 32; omega)
  have hmax : (readColumn s saved[done]
      (joinParts ((saved.drop (done + 1)).map ListViewColumn.text))).maxOrder.toNat =
        max s.maxOrder.toNat (saved[done].order.toNat + 1) := by
    rw [readColumn, ← hplus]
    dsimp only
    split
    · next hless => exact (max_eq_right (le_of_lt (BitVec.lt_def.mp hless))).symm
    · next hless => exact (max_eq_left (Nat.le_of_not_lt hless)).symm
  refine ⟨rfl, ?_, ?_, fun i hi hlti => ?_, fun i hi hlti => ?_, ?_, ?_, fun i hi hlti => ?_⟩
  · show s.columnIndex + 1 = _
    rw [h.index]
    exact (BitVec.ofNat_add done 1).symm
  · show (s.orderArray.set _ _).length = 50
    rw [List.length_set, h.length]
  · show (s.orderArray.set _ _)[_]? = _
    rcases Nat.lt_succ_iff_lt_or_eq.mp hlti with hbefore | rfl
    · have hne : saved[done].order.toNat ≠ saved[i].order.toNat := fun heq =>
        absurd (order_inj hperm hdone hi heq) (by omega)
      rw [List.getElem?_set_ne hne]
      exact h.orders i hi hbefore
    · rw [List.getElem?_set_self (by rw [h.length]; omega), h.index]
  · rw [hmax]
    rcases Nat.lt_succ_iff_lt_or_eq.mp hlti with hbefore | rfl
    · exact lt_max_of_lt_left (h.maxOrder i hi hbefore)
    · exact lt_max_of_lt_right (Nat.lt_succ_self _)
  · rw [hmax]
    exact max_le h.maxOrder_le hlt
  · show (s.columns.modify _ _).length = _
    rw [List.length_modify, h.columns]
  · show Option.map _ (s.columns.modify _ _)[i]? = _
    rw [h.index, hindex, List.getElem?_modify, Option.map_eq_map, Option.map_map]
    rcases Nat.lt_succ_iff_lt_or_eq.mp hlti with hbefore | rfl
    · rw [← h.widths i hi hbefore]
      congr 1
      funext column
      rw [Function.comp_apply, if_neg (by omega)]
    · rw [List.getElem?_eq_getElem (by rwa [h.columns]), Option.map_some, Function.comp_apply,
        if_pos rfl]

theorem restored (hperm : Permuted saved) (hlimit : saved.length < 50)
    (h : ColumnsLoaded saved saved.length s) :
    listViewSetColumnOrderArray s.columns (s.orderArray.take s.maxOrder.toNat) = saved := by
  have hmax : s.maxOrder.toNat = saved.length := by
    refine le_antisymm h.maxOrder_le (Nat.le_of_not_lt fun hlt => ?_)
    obtain ⟨i, hi, horder⟩ := exists_order hperm hlt
    have hless := h.maxOrder i hi hi
    omega
  have htake : (s.orderArray.take saved.length).length = saved.length := by
    rw [List.length_take, h.length]
    omega
  rw [hmax, listViewSetColumnOrderArray, if_pos (htake.trans h.columns.symm)]
  refine List.ext_getElem (by rw [List.length_mapIdx, h.columns]) fun i hi hi' => ?_
  rw [List.getElem_mapIdx]
  have hfound : (s.orderArray.take saved.length).idxOf? (BitVec.ofNat 32 i) =
      some saved[i].order.toNat := by
    have hlt := order_lt hperm hi'
    have helem (j : Nat) (hj : j < saved.length) :
        (s.orderArray.take saved.length)[saved[j].order.toNat]? = some (BitVec.ofNat 32 j) := by
      rw [List.getElem?_take_of_lt (order_lt hperm hj)]
      exact h.orders j hj hj
    refine List.findIdx?_eq_some_iff_getElem.mpr ⟨by rwa [htake], ?_, fun k hk => ?_⟩
    · exact beq_iff_eq.mpr ((List.getElem_eq_iff _).mpr (helem i hi'))
    · -- another column has the smaller order
      obtain ⟨j, hj, rfl⟩ := exists_order hperm (hk.trans hlt)
      rw [(List.getElem_eq_iff _).mpr (helem j hj), beq_iff_eq]
      intro heq
      have hij : j = i := by
        have hmod := congrArg BitVec.toNat heq
        rw [BitVec.toNat_ofNat, BitVec.toNat_ofNat, Nat.mod_eq_of_lt (by omega),
          Nat.mod_eq_of_lt (by omega)] at hmod
        exact hmod
      subst hij
      exact lt_irrefl _ hk
  have hwidth := h.widths i hi' hi'
  rw [List.getElem?_eq_getElem (by rwa [h.columns]), Option.map_some, Option.some.injEq] at hwidth
  rw [hfound]
  dsimp only
  rw [BitVec.ofNat_toNat, BitVec.setWidth_eq, hwidth]

theorem loadColumns_eq (hperm : Permuted saved) (hlimit : saved.length < 50) :
    ∀ (k : Nat) {done : Nat} {s : ColumnLoad}, done + k = saved.length →
      ColumnsLoaded saved done s →
      ColumnLoad.loadColumns phUpcaseUnicodeChar dpi dpi (k + 1) s =
        some (.returned true saved) := by
  intro k
  induction k with
  | zero =>
      intro done s hdone h
      obtain rfl : done = saved.length := hdone
      have hempty : s.remainingPart = [] := by
        rw [h.remaining, List.drop_length]
        rfl
      rw [ColumnLoad.loadColumns, hempty, if_neg (by simp),
        if_pos (by rw [h.length]; exact h.maxOrder_le.trans hlimit.le),
        restored hperm hlimit h]
  | succ k ih =>
      intro done s hdone h
      have hlt : done < saved.length := by omega
      have hdrop := List.drop_eq_getElem_cons hlt
      have hne : s.remainingPart ≠ [] := by
        rw [h.remaining, hdrop, List.map_cons]
        exact joinParts_ne_nil (isPart_text _)
      rw [ColumnLoad.loadColumns, if_pos (mt List.length_eq_zero_iff.mp hne),
        loadColumn_eq h ((order_lt hperm hlt).trans hlimit) hdrop]
      exact ih (by omega) (step hperm hlimit h hlt)

end ColumnsLoaded

theorem phLoadListViewColumnSettings_saved {saved view : List ListViewColumn} (dpi : BitVec 32)
    (hlimit : saved.length < 50) (hperm : ColumnsLoaded.Permuted saved)
    (hview : view.length = saved.length) :
    phLoadListViewColumnSettings phUpcaseUnicodeChar dpi view
      (phSaveListViewColumnSettings env dpi saved) (saved.length + 1) =
        some (.returned true saved) := by
  have hstart : ColumnsLoaded saved 0
      ⟨joinParts (saved.map ListViewColumn.text), 0, List.replicate 50 0, 0, view⟩ :=
    ⟨by rw [List.drop_zero], rfl, List.length_replicate,
      fun i _ hi => absurd hi (Nat.not_lt_zero i),
      fun i _ hi => absurd hi (Nat.not_lt_zero i), Nat.zero_le _, hview,
      fun i _ hi => absurd hi (Nat.not_lt_zero i)⟩
  have hparts : ∀ part ∈ ulongText 10 dpi :: saved.map ListViewColumn.text, IsPart part := by
    intro part hpart
    rcases List.mem_cons.mp hpart with rfl | hpart
    · exact isPart_ulongText dpi
    · obtain ⟨column, -, rfl⟩ := List.mem_map.mp hpart
      exact isPart_text column
  obtain ⟨scale, hscale, hscalevalue⟩ :=
    parsedInteger_ulongText (by decide : 2 ≤ 10) (by decide) dpi
  rw [phSaveListViewColumnSettings_eq, joinParts_cons_cons, phLoadListViewColumnSettings,
    if_neg (by simp)]
  simp only [List.headD_cons, if_true, List.tail_cons, splitParts_joinParts hparts,
    List.length_eq_zero_iff, ulongText_ne_nil, if_false, hscale, hscalevalue]
  exact ColumnsLoaded.loadColumns_eq hperm hlimit saved.length (Nat.zero_add _) hstart

/-! ## Any string -/

/-- The array has all of its elements, and no more of them are counted. -/
def OrdersInArray (s : ColumnLoad) : Prop := s.orderArray.length = 50 ∧ s.maxOrder.toNat ≤ 50

theorem setOrder_inArray {s : ColumnLoad} (order : ULong) (h : OrdersInArray s) :
    ∃ s', s.setOrder order = some s' ∧ OrdersInArray s' ∧ s'.remainingPart = s.remainingPart := by
  rw [ColumnLoad.setOrder]
  split
  · next hlimit =>
      have hlt : order.toNat < 50 := hlimit
      rw [if_pos (by rwa [h.1])]
      refine ⟨_, rfl, ⟨?_, ?_⟩, rfl⟩
      · rw [List.length_set, h.1]
      · dsimp only
        split
        · rw [BitVec.toNat_add, Nat.mod_eq_of_lt (by show _ + 1 < 2 ^ 32; omega)]
          exact hlt
        · exact h.2
  · exact ⟨s, rfl, h, rfl⟩

theorem exists_scaleWidth (width scale dpi : BitVec 32) :
    ∃ width', ColumnLoad.scaleWidth width scale dpi = some width' := by
  rw [ColumnLoad.scaleWidth]
  split
  · next hscale =>
      rw [if_neg hscale.2]
      exact ⟨_, rfl⟩
  · exact ⟨_, rfl⟩

theorem loadColumn_total {s : ColumnLoad} (scale dpi : BitVec 32) (h : OrdersInArray s)
    (hne : s.remainingPart.length ≠ 0) :
    (∃ result columns, s.loadColumn phUpcaseUnicodeChar scale dpi =
        .inl (.returned result columns)) ∨
      ∃ s', s.loadColumn phUpcaseUnicodeChar scale dpi = .inr s' ∧ OrdersInArray s' ∧
        s'.remainingPart.length < s.remainingPart.length := by
  have hshorter := @splitParts_shorter phUpcaseUnicodeChar _ 0x7c hne
  rw [ColumnLoad.loadColumn]
  dsimp only
  split
  · exact Or.inl ⟨_, _, rfl⟩
  · split
    · exact Or.inl ⟨_, _, rfl⟩
    · split
      · exact Or.inl ⟨_, _, rfl⟩
      · next order _ =>
          obtain ⟨s', hset, hs', hremaining⟩ :=
            @setOrder_inArray { s with
              remainingPart := (splitParts phUpcaseUnicodeChar s.remainingPart 0x7c).2.2 }
              (order.setWidth 32) h
          rw [hset]
          dsimp only
          split
          · exact Or.inl ⟨_, _, rfl⟩
          · next width _ =>
              obtain ⟨width', hwidth⟩ := exists_scaleWidth (width.setWidth 32) scale dpi
              rw [hwidth]
              exact Or.inr ⟨_, rfl, hs', by rw [hremaining]; exact hshorter⟩

theorem loadColumns_total (scale dpi : BitVec 32) :
    ∀ (n : Nat) {s : ColumnLoad}, s.remainingPart.length ≤ n → OrdersInArray s →
      ∃ result columns, s.loadColumns phUpcaseUnicodeChar scale dpi (n + 1) =
        some (.returned result columns) := by
  intro n
  induction n with
  | zero =>
      intro s hle h
      rw [ColumnLoad.loadColumns, if_neg (not_not_intro (Nat.le_zero.mp hle)),
        if_pos (by rw [h.1]; exact h.2)]
      exact ⟨_, _, rfl⟩
  | succ n ih =>
      intro s hle h
      rw [ColumnLoad.loadColumns]
      split
      · next hne =>
          rcases @loadColumn_total phUpcaseUnicodeChar s scale dpi h hne with
            ⟨result, columns, hload⟩ | ⟨s', hload, hs', hlt⟩
          · rw [hload]
            exact ⟨_, _, rfl⟩
          · rw [hload]
            exact ih (by omega) hs'
      · rw [if_pos (by rw [h.1]; exact h.2)]
        exact ⟨_, _, rfl⟩

theorem phLoadListViewColumnSettings_total (dpi : BitVec 32) (view : List ListViewColumn)
    (settings : List WChar) :
    ∃ fuel result columns, phLoadListViewColumnSettings phUpcaseUnicodeChar dpi view settings fuel =
      some (.returned result columns) := by
  have hload (scale : BitVec 32) (remainingPart : List WChar) :
      ∃ fuel result columns, ColumnLoad.loadColumns phUpcaseUnicodeChar scale dpi fuel
        ⟨remainingPart, 0, List.replicate 50 0, 0, view⟩ = some (.returned result columns) :=
    ⟨_, loadColumns_total scale dpi remainingPart.length le_rfl
      ⟨List.length_replicate, Nat.zero_le _⟩⟩
  simp only [phLoadListViewColumnSettings]
  split
  · exact ⟨0, _, _, rfl⟩
  · split
    · split
      · exact ⟨0, _, _, rfl⟩
      · split
        · exact ⟨0, _, _, rfl⟩
        · exact hload _ _
    · exact hload _ _

/-! ## Groups -/

def ListViewGroup.texts (group : ListViewGroup) : List (List WChar) :=
  [longText group.groupId, ulongText 10 (group.state &&& lvgsMask)]

/-- The groups that a list view has when the states of other ones were set. -/
def ListViewGroups.restore (view : ListViewGroups) (saved : List ListViewGroup) : ListViewGroups :=
  saved.foldl (fun view group =>
    view.setGroupState group.groupId lvgsMask (group.state &&& lvgsMask)) view

theorem isPart_texts {saved : List ListViewGroup} :
    ∀ part ∈ saved.flatMap ListViewGroup.texts, IsPart part := by
  intro part hpart
  obtain ⟨group, -, hin⟩ := List.mem_flatMap.mp hpart
  rcases List.mem_pair.mp hin with rfl | rfl
  · exact isPart_longText _
  · exact isPart_ulongText _

/-- The text that is saved: the count, and the two parts of each group. -/
def groupsText (saved : ListViewGroups) : List WChar :=
  joinParts (longText (BitVec.ofNat 32 saved.groups.length) ::
    saved.groups.flatMap ListViewGroup.texts)

theorem phSaveListViewGroupStatesToSetting_eq (s : PhSettings) (name : List WChar)
    (saved : ListViewGroups) :
    phSaveListViewGroupStatesToSetting s name saved =
      s.phSetStringRefSetting name (groupsText saved) := by
  have hfold : ∀ (groups : List ListViewGroup) (stringBuilder : List WChar),
      groups.foldl (fun stringBuilder group =>
        stringBuilder ++ printSigned (listViewGetGroupInfo group lvgsMask).groupId ++
          0x7c :: printUnsigned (listViewGetGroupInfo group lvgsMask).state ++ [0x7c])
        stringBuilder =
      stringBuilder ++ (groups.flatMap ListViewGroup.texts).flatMap (· ++ [0x7c]) := by
    intro groups
    induction groups with
    | nil => exact fun stringBuilder => (List.append_nil _).symm
    | cons group groups ih =>
        intro stringBuilder
        rw [List.foldl_cons, ih, List.flatMap_cons, List.flatMap_append, printSigned_eq,
          printUnsigned_eq]
        simp [ListViewGroup.texts, listViewGetGroupInfo]
  rw [phSaveListViewGroupStatesToSetting]
  dsimp only
  rw [hfold, printSigned_eq, if_pos (by simp), groupsText, joinParts, List.flatMap_cons]

theorem loadGroups_texts {count : BitVec 32} (hcount : count.toNat < 2 ^ 31) :
    ∀ (saved : List ListViewGroup) {index : BitVec 32} {view : ListViewGroups},
      index.toNat + saved.length = count.toNat →
        loadGroups phUpcaseUnicodeChar count (saved.length + 1) index
          (joinParts (saved.flatMap ListViewGroup.texts)) view = some (view.restore saved) := by
  have hsigned {x : BitVec 32} (hx : x.toNat < 2 ^ 31) : x.toInt = x.toNat :=
    BitVec.toInt_eq_toNat_of_lt (by omega)
  intro saved
  induction saved with
  | nil =>
      intro index view hindex
      rw [List.length_nil, Nat.add_zero] at hindex
      rw [loadGroups, if_neg]
      · rfl
      · rw [hsigned hcount, hsigned (hindex ▸ hcount), hindex]
        exact lt_irrefl _
  | cons group saved ih =>
      intro index view hindex
      rw [List.length_cons] at hindex
      have hnext : (index + 1).toNat = index.toNat + 1 := by
        rw [BitVec.toNat_add]
        exact Nat.mod_eq_of_lt (by show _ + 1 < 2 ^ 32; omega)
      have hparts : ∀ part ∈ longText group.groupId ::
          ulongText 10 (group.state &&& lvgsMask) :: saved.flatMap ListViewGroup.texts,
          IsPart part := @isPart_texts (group :: saved)
      have hfirst : splitParts phUpcaseUnicodeChar
          (joinParts ((group :: saved).flatMap ListViewGroup.texts)) 0x7c =
          (true, longText group.groupId, joinParts
            (ulongText 10 (group.state &&& lvgsMask) :: saved.flatMap ListViewGroup.texts)) :=
        splitParts_joinParts hparts
      have hsecond := @splitParts_joinParts phUpcaseUnicodeChar _ _ fun part hpart =>
        hparts part (List.mem_cons_of_mem _ hpart)
      obtain ⟨groupId, hgroupId, hgroupIdvalue⟩ := parsedInteger_longText group.groupId
      obtain ⟨state, hstate, hstatevalue⟩ :=
        parsedInteger_ulongText (by decide : 2 ≤ 10) (by decide) (group.state &&& lvgsMask)
      have hne : joinParts ((group :: saved).flatMap ListViewGroup.texts) ≠ [] :=
        joinParts_ne_nil (isPart_longText group.groupId)
      rw [loadGroups, if_pos (by rw [hsigned hcount, hsigned (by omega)]; omega),
        if_neg (mt List.length_eq_zero_iff.mp hne), hfirst]
      dsimp only
      rw [if_neg (mt List.length_eq_zero_iff.mp (longText_ne_nil _)), hsecond]
      dsimp only
      rw [if_neg (mt List.length_eq_zero_iff.mp (ulongText_ne_nil _)), hgroupId, hstate]
      dsimp only
      rw [hgroupIdvalue, hstatevalue]
      exact @ih (index + 1) _ (by omega)

/-- What `phLoadListViewGroupStatesFromSetting` does with the text of the setting. -/
def loadGroupsText (phUpcaseUnicodeChar : WChar → WChar) (text : List WChar)
    (view : ListViewGroups) (fuel : Nat) : Option ListViewGroups :=
  if text.length = 0 then some view
  else
    let (found, part, remaining) := splitParts phUpcaseUnicodeChar text 0x7c
    if !found then some view
    else
      match parsedInteger part 10 with
      | none => some view
      | some count => loadGroups phUpcaseUnicodeChar (count.setWidth 32) fuel 0 remaining view

theorem phLoadListViewGroupStatesFromSetting_eq (s : PhSettings) (name : List WChar)
    (view : ListViewGroups) (fuel : Nat) :
    phLoadListViewGroupStatesFromSetting phUpcaseUnicodeChar s name view fuel =
      (s.phGetStringRefSetting name).map fun text =>
        loadGroupsText phUpcaseUnicodeChar text view fuel := by
  rw [phLoadListViewGroupStatesFromSetting]
  cases s.phGetStringRefSetting name with
  | error exception => rfl
  | ok text =>
      simp only [bind, Except.bind, Except.map, loadGroupsText]
      generalize splitParts phUpcaseUnicodeChar text 0x7c = parts
      obtain ⟨found, part, remaining⟩ := parts
      dsimp only
      split
      · rfl
      · split
        · rfl
        · cases parsedInteger part 10 with
          | none => rfl
          | some count => rfl

theorem loadGroupsText_groupsText (saved view : ListViewGroups) :
    loadGroupsText phUpcaseUnicodeChar (groupsText saved) view
      (saved.groups.length + 1) = some (view.restore saved.groups) := by
  have hlength := saved.count_lt
  have hcount : (BitVec.ofNat 32 saved.groups.length).toNat = saved.groups.length :=
    Nat.mod_eq_of_lt (hlength.trans (by decide))
  obtain ⟨count, hparse, hvalue⟩ := parsedInteger_longText (BitVec.ofNat 32 saved.groups.length)
  have hparts : ∀ part ∈ longText (BitVec.ofNat 32 saved.groups.length) ::
      saved.groups.flatMap ListViewGroup.texts, IsPart part := by
    intro part hpart
    rcases List.mem_cons.mp hpart with rfl | hpart
    · exact isPart_longText _
    · exact isPart_texts part hpart
  have hne : groupsText saved ≠ [] := joinParts_ne_nil (isPart_longText _)
  have hload := @loadGroups_texts phUpcaseUnicodeChar _ (by rwa [hcount]) saved.groups 0 view
    (by rw [hcount]; exact Nat.zero_add _)
  rw [loadGroupsText, if_neg (mt List.length_eq_zero_iff.mp hne), groupsText,
    splitParts_joinParts hparts]
  dsimp only
  split
  · next hfound =>
      have hempty : saved.groups = [] := by
        cases hgroups : saved.groups with
        | nil => rfl
        | cons group groups =>
            rw [hgroups] at hfound
            cases hfound
      rw [hempty]
      rfl
  · rw [hparse]
    dsimp only
    rw [hvalue]
    exact hload

theorem loadGroups_total (count : BitVec 32) :
    ∀ (n : Nat) {index : BitVec 32} {remaining : List WChar} {view : ListViewGroups},
      remaining.length ≤ n →
        ∃ view',
          loadGroups phUpcaseUnicodeChar count (n + 1) index remaining view = some view' := by
  intro n
  induction n with
  | zero =>
      intro index remaining view hle
      rw [loadGroups]
      split
      · rw [if_pos (Nat.le_zero.mp hle)]
        exact ⟨_, rfl⟩
      · exact ⟨_, rfl⟩
  | succ n ih =>
      intro index remaining view hle
      rw [loadGroups]
      split
      · split
        · exact ⟨_, rfl⟩
        · next hne =>
            have hfirst := @splitParts_shorter phUpcaseUnicodeChar _ 0x7c hne
            dsimp only
            split
            · exact ⟨_, rfl⟩
            · split
              · exact ⟨_, rfl⟩
              · next hstate =>
                  by_cases hsecond : (splitParts phUpcaseUnicodeChar remaining 0x7c).2.2.length = 0
                  · rw [List.length_eq_zero_iff.mp hsecond,
                      splitParts_of_notMem List.not_mem_nil] at hstate
                    exact absurd rfl hstate
                  · have hshorter := @splitParts_shorter phUpcaseUnicodeChar _ 0x7c hsecond
                    split
                    · exact ih (Nat.le_of_lt_succ ((hshorter.trans hfirst).trans_le hle))
                    · exact ⟨_, rfl⟩
      · exact ⟨_, rfl⟩

theorem loadGroupsText_total (text : List WChar) (view : ListViewGroups) :
    ∃ fuel view', loadGroupsText phUpcaseUnicodeChar text view fuel = some view' := by
  simp only [loadGroupsText]
  split
  · exact ⟨0, _, rfl⟩
  · split
    · exact ⟨0, _, rfl⟩
    · split
      · exact ⟨0, _, rfl⟩
      · exact ⟨_, loadGroups_total _ _ le_rfl⟩

/-! ## The states that are restored -/

/-- A group after the states of other ones were set. -/
def ListViewGroup.restore (group : ListViewGroup) (saved : List ListViewGroup) : ListViewGroup :=
  saved.foldl (fun group other =>
    group.setState other.groupId lvgsMask (other.state &&& lvgsMask)) group

theorem groups_restore (saved : List ListViewGroup) : ∀ view : ListViewGroups,
    (view.restore saved).groups = view.groups.map (·.restore saved) := by
  induction saved with
  | nil => exact fun view => (List.map_id _).symm
  | cons other saved ih =>
      intro view
      show (ListViewGroups.restore (view.setGroupState other.groupId lvgsMask
        (other.state &&& lvgsMask)) saved).groups = _
      rw [ih, ListViewGroups.setGroupState, List.map_map]
      rfl

theorem restore_of_ne {saved : List ListViewGroup} : ∀ {group : ListViewGroup},
    (∀ other ∈ saved, group.groupId ≠ other.groupId) → group.restore saved = group := by
  induction saved with
  | nil => exact fun _ => rfl
  | cons other saved ih =>
      intro group h
      have hset : group.setState other.groupId lvgsMask (other.state &&& lvgsMask) = group :=
        if_neg (h other List.mem_cons_self)
      show (group.setState other.groupId lvgsMask (other.state &&& lvgsMask)).restore saved = group
      rw [hset]
      exact ih fun other hother => h other (List.mem_cons_of_mem _ hother)

theorem masked_state (x y mask : BitVec 32) :
    ((x &&& ~~~mask) ||| ((y &&& mask) &&& mask)) &&& mask = y &&& mask := by
  ext i hi
  simp only [BitVec.getElem_and, BitVec.getElem_or, BitVec.getElem_not]
  cases x[i] <;> cases y[i] <;> cases mask[i] <;> rfl

theorem restore_of_mem {saved : List ListViewGroup} :
    ∀ {group other : ListViewGroup}, (saved.map (·.groupId)).Nodup → other ∈ saved →
      group.groupId = other.groupId →
        listViewGetGroupInfo (group.restore saved) lvgsMask =
          listViewGetGroupInfo other lvgsMask := by
  induction saved with
  | nil => exact fun _ hother => absurd hother List.not_mem_nil
  | cons first saved ih =>
      intro group other hnodup hother hid
      rw [List.map_cons, List.nodup_cons] at hnodup
      have hunlike : ∀ next ∈ saved, first.groupId ≠ next.groupId := fun next hnext heq =>
        hnodup.1 (heq ▸ List.mem_map_of_mem hnext)
      show listViewGetGroupInfo ((group.setState first.groupId lvgsMask
        (first.state &&& lvgsMask)).restore saved) lvgsMask = _
      rcases List.mem_cons.mp hother with rfl | hother
      · have hset : group.setState other.groupId lvgsMask (other.state &&& lvgsMask) =
            { group with state :=
                (group.state &&& ~~~lvgsMask) ||| ((other.state &&& lvgsMask) &&& lvgsMask) } :=
          if_pos hid
        rw [hset, restore_of_ne fun next hnext => hid ▸ hunlike next hnext]
        show ListViewGroup.mk _ _ = ListViewGroup.mk _ _
        rw [hid, masked_state]
      · have hset : group.setState first.groupId lvgsMask (first.state &&& lvgsMask) = group :=
          if_neg fun heq => hunlike other hother (heq.symm.trans hid)
        rw [hset]
        exact ih hnodup.2 hother hid

theorem restore_infos {saved view : ListViewGroups}
    (hnodup : (saved.groups.map (·.groupId)).Nodup)
    (hids : view.groups.map (·.groupId) = saved.groups.map (·.groupId)) :
    (view.restore saved.groups).groups.map (listViewGetGroupInfo · lvgsMask) =
      saved.groups.map (listViewGetGroupInfo · lvgsMask) := by
  have hlength : view.groups.length = saved.groups.length := by
    simpa only [List.length_map] using congrArg List.length hids
  rw [groups_restore]
  refine List.ext_getElem (by simpa only [List.length_map] using hlength) fun i hi hi' => ?_
  rw [List.length_map, List.length_map] at hi
  rw [List.length_map] at hi'
  have hid : view.groups[i].groupId = saved.groups[i].groupId := by
    have hmap := List.getElem_of_eq hids (by rwa [List.length_map] : i < _)
    rwa [List.getElem_map, List.getElem_map] at hmap
  rw [List.getElem_map, List.getElem_map, List.getElem_map]
  exact restore_of_mem hnodup (List.getElem_mem hi') hid

/-! ## The store -/

theorem phSetStringRefSetting_registered {s : PhSettings} {name : List WChar} (text : List WChar)
    (h : s.RegisteredAs name .string) :
    ∃ s', s.phSetStringRefSetting name text = (.ok (), s') ∧
      s'.phGetStringRefSetting name = .ok text := by
  obtain ⟨setting, hlookup, htype⟩ := h
  refine ⟨s.store name (.string (some text)), ?_, ?_⟩
  · rw [PhSettings.phSetStringRefSetting, PhSettings.setSetting, hlookup]
    exact congrArg (Prod.mk _) (if_pos htype)
  · have hstored : (s.store name (.string (some text))).phpLookupSetting name =
        some { setting with u := .string (some text) } := by
      rw [PhSettings.lookup_store, hlookup, Option.map_some, if_pos rfl]
    rw [PhSettings.phGetStringRefSetting, PhSettings.getSetting, hstored]
    rfl

/-- What was saved of a list view is restored, and loading ends without a fault. -/
theorem listViewSettings_roundTrip (env : FormatEnv Single Double)
    (phUpcaseUnicodeChar : WChar → WChar) :
    (∀ (dpi : BitVec 32) (saved view : List ListViewColumn), saved.length < 50 →
      ColumnsLoaded.Permuted saved → view.length = saved.length →
        ∃ fuel, phLoadListViewColumnSettings phUpcaseUnicodeChar dpi view
          (phSaveListViewColumnSettings env dpi saved) fuel = some (.returned true saved)) ∧
    (∀ (s : PhSettings) (name : List WChar) (saved view : ListViewGroups),
      s.RegisteredAs name .string →
        ∃ s' fuel, phSaveListViewGroupStatesToSetting s name saved = (.ok (), s') ∧
          phLoadListViewGroupStatesFromSetting phUpcaseUnicodeChar s' name view fuel =
            .ok (some (view.restore saved.groups)) ∧
          ((saved.groups.map (·.groupId)).Nodup →
            view.groups.map (·.groupId) = saved.groups.map (·.groupId) →
              (view.restore saved.groups).groups.map (listViewGetGroupInfo · lvgsMask) =
                saved.groups.map (listViewGetGroupInfo · lvgsMask))) ∧
    (∀ (dpi : BitVec 32) (view : List ListViewColumn) (settings : List WChar),
      ∃ fuel result columns,
        phLoadListViewColumnSettings phUpcaseUnicodeChar dpi view settings fuel =
          some (.returned result columns)) ∧
    ∀ (s : PhSettings) (name : List WChar) (view : ListViewGroups),
      ∃ fuel, ∀ loaded,
        phLoadListViewGroupStatesFromSetting phUpcaseUnicodeChar s name view fuel = .ok loaded →
          loaded ≠ none := by
  refine ⟨fun dpi saved view hlimit hperm hview =>
      ⟨_, phLoadListViewColumnSettings_saved dpi hlimit hperm hview⟩,
    fun s name saved view h => ?_, phLoadListViewColumnSettings_total, fun s name view => ?_⟩
  · obtain ⟨s', hset, hget⟩ := phSetStringRefSetting_registered (groupsText saved) h
    refine ⟨s', saved.groups.length + 1, ?_, ?_, restore_infos⟩
    · rw [phSaveListViewGroupStatesToSetting_eq, hset]
    · rw [phLoadListViewGroupStatesFromSetting_eq, hget, Except.map,
        loadGroupsText_groupsText]
  · cases hget : s.phGetStringRefSetting name with
    | error exception =>
        refine ⟨0, fun loaded hload => ?_⟩
        rw [phLoadListViewGroupStatesFromSetting_eq, hget] at hload
        cases hload
    | ok text =>
        obtain ⟨fuel, view', hload⟩ := @loadGroupsText_total phUpcaseUnicodeChar text view
        refine ⟨fuel, fun loaded hloaded => ?_⟩
        rw [phLoadListViewGroupStatesFromSetting_eq, hget, Except.map, hload] at hloaded
        cases hloaded
        exact Option.some_ne_none _

end SystemInformer.PhLib
