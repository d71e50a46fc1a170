import SystemInformer.PhLib.Settings

/-!
# Settings of list views (`settings.c`)

The orders and widths of the columns of a list view are kept in a string, and so are the states of
its groups. A list view is the list of its columns, or of its groups; the messages that get and set
their attributes are those of the control. On 64 bits `PhHasIntrinsics` is `TRUE`, so a search looks
at the counted characters only.

A loop that has used its fuel is still running. What would access `orderArray` outside of its
elements or divide by zero is a fault.
-/

namespace SystemInformer.PhLib

/-! ## The list view -/

/-- `iOrder` and `cx` of a column. -/
structure ListViewColumn where
  order : BitVec 32
  width : BitVec 32
  deriving DecidableEq

/-- `ListView_SetColumn` with `LVCF_WIDTH`. -/
def listViewSetColumn (columns : List ListViewColumn) (index : ULong) (cx : BitVec 32) :
    List ListViewColumn :=
  columns.modify index.toNat fun column => { column with width := cx }

/-- `ListView_SetColumnOrderArray`: the columns from left to right. An array of another length is
refused. -/
def listViewSetColumnOrderArray (columns : List ListViewColumn) (array : List ULong) :
    List ListViewColumn :=
  if array.length = columns.length then
    columns.mapIdx fun index column =>
      match array.idxOf? (BitVec.ofNat 32 index) with
      | some order => { column with order := BitVec.ofNat 32 order }
      | none => column
  else columns

/-- `iGroupId` and `state` of a group. -/
structure ListViewGroup where
  groupId : BitVec 32
  state : BitVec 32
  deriving DecidableEq

/-- The groups of a list view, which a `LONG` counts. -/
structure ListViewGroups where
  groups : List ListViewGroup
  count_lt : groups.length < 2 ^ 31

/-- `LVGS_NORMAL | LVGS_COLLAPSED`. -/
def lvgsMask : BitVec 32 := 0x0 ||| 0x1

/-- `ListView_GetGroupInfoByIndex` with `LVGF_GROUPID | LVGF_STATE`. -/
def listViewGetGroupInfo (group : ListViewGroup) (stateMask : BitVec 32) : ListViewGroup :=
  { group with state := group.state &&& stateMask }

/-- What `ListView_SetGroupState` does to a group. -/
def ListViewGroup.setState (groupId mask state : BitVec 32) (group : ListViewGroup) :
    ListViewGroup :=
  if group.groupId = groupId then
    { group with state := (group.state &&& ~~~mask) ||| (state &&& mask) }
  else group

/-- `ListView_SetGroupState`. -/
def ListViewGroups.setGroupState (listView : ListViewGroups)
    (groupId mask state : BitVec 32) : ListViewGroups where
  groups := listView.groups.map (ListViewGroup.setState groupId mask state)
  count_lt := by
    rw [List.length_map]
    exact listView.count_lt

/-! ## Columns -/

section

variable {Single Double : Type} (env : FormatEnv Single Double)
  (phUpcaseUnicodeChar : WChar → WChar)

/-- `%u` and `%lu` of the C runtime. -/
def printUnsigned (v : ULong) : List WChar :=
  if v.toNat = 0 then [0x30]
  else (Nat.digits 10 v.toNat).reverse.map fun d => UInt16.ofNat (0x30 + d)

/-- `%d`. -/
def printSigned (v : BitVec 32) : List WChar :=
  if v.toInt < 0 then 0x2d :: printUnsigned (-v) else printUnsigned v

/-- `PH_INT64_STR_LEN_1` characters. -/
def formatBufferSize : Nat := 2 * (50 + 1)

/-- What is appended to the string builder: the text in the buffer, or what
`PhAppendFormatStringBuilder` prints. -/
def appendFormat (stringBuilder : List WChar) (format : List (PhFormat Single Double))
    (printed : List WChar) : List WChar :=
  let result := phFormatToBuffer env format true formatBufferSize
  if result.success then
    stringBuilder ++
      (List.range ((result.returnLength - 2) / 2)).map fun i => (result.buffer i).getD 0
  else stringBuilder ++ printed

def phSaveListViewColumnSettings (dpiValue : BitVec 32) (columns : List ListViewColumn) :
    List WChar :=
  let stringBuilder :=
    appendFormat env [] [phInitFormatC 0x40, phInitFormatU dpiValue, phInitFormatC 0x7c]
      (0x40 :: printUnsigned dpiValue ++ [0x7c])
  let stringBuilder := columns.foldl (fun stringBuilder lvColumn =>
    appendFormat env stringBuilder
      [phInitFormatU lvColumn.order, phInitFormatC 0x2c, phInitFormatU lvColumn.width,
        phInitFormatC 0x7c]
      (printUnsigned lvColumn.order ++ 0x2c :: printUnsigned lvColumn.width ++ [0x7c]))
    stringBuilder
  if stringBuilder.length ≠ 0 then stringBuilder.dropLast else stringBuilder

/-- `PhSplitStringRefAtChar` with its two parts; without the separator the first one is all. -/
def splitParts (input : List WChar) (separator : WChar) : Bool × List WChar × List WChar :=
  match phSplitStringRefAtChar ⟨true, true⟩ phUpcaseUnicodeChar input separator with
  | some (firstPart, secondPart) => (true, firstPart, secondPart)
  | none => (false, input, [])

def orderLimit : ULong := 50

/-- The variables of `PhLoadListViewColumnSettings`, with the list view. -/
structure ColumnLoad where
  remainingPart : List WChar
  columnIndex : ULong
  orderArray : List ULong
  maxOrder : ULong
  columns : List ListViewColumn

inductive LoadEnd where
  | fault
  | returned (result : Bool) (columns : List ListViewColumn)
  deriving DecidableEq

namespace ColumnLoad

/-- The order of the column is noted; no result is an access outside of the array. -/
def setOrder (s : ColumnLoad) (order : ULong) : Option ColumnLoad :=
  if order < orderLimit then
    if order.toNat < s.orderArray.length then
      some { s with
        orderArray := s.orderArray.set order.toNat s.columnIndex
        maxOrder := if s.maxOrder < order + 1 then order + 1 else s.maxOrder }
    else none
  else some s

/-- The width at the current scale; no result is a division by zero. -/
def scaleWidth (width scale dpi : BitVec 32) : Option (BitVec 32) :=
  if scale ≠ dpi ∧ scale ≠ 0 then
    if scale = 0 then none else some (phMultiplyDivideSigned width dpi scale)
  else some width

/-- One pass of the loop: how it ends, or what the variables are. -/
def loadColumn (scale dpi : BitVec 32) (s : ColumnLoad) : LoadEnd ⊕ ColumnLoad :=
  let (_, columnPart, remainingPart) := splitParts phUpcaseUnicodeChar s.remainingPart 0x7c
  let s := { s with remainingPart := remainingPart }
  if columnPart.length = 0 then .inl (.returned false s.columns)
  else
    let (_, orderPart, widthPart) := splitParts phUpcaseUnicodeChar columnPart 0x2c
    if orderPart.length = 0 ∨ widthPart.length = 0 then .inl (.returned false s.columns)
    else
      match parsedInteger orderPart 10 with
      | none => .inl (.returned false s.columns)
      | some integer =>
          match s.setOrder (integer.setWidth 32) with
          | none => .inl .fault
          | some s =>
              match parsedInteger widthPart 10 with
              | none => .inl (.returned false s.columns)
              | some integer =>
                  match scaleWidth (integer.setWidth 32) scale dpi with
                  | none => .inl .fault
                  | some width =>
                      .inr { s with
                        columns := listViewSetColumn s.columns s.columnIndex width
                        columnIndex := s.columnIndex + 1 }

/-- The loop, and the order of the columns after it. -/
def loadColumns (scale dpi : BitVec 32) : Nat → ColumnLoad → Option LoadEnd
  | 0, _ => none
  | fuel + 1, s =>
      if s.remainingPart.length ≠ 0 then
        match loadColumn phUpcaseUnicodeChar scale dpi s with
        | .inl loaded => some loaded
        | .inr s => loadColumns scale dpi fuel s
      else if s.maxOrder.toNat ≤ s.orderArray.length then
        some (.returned true
          (listViewSetColumnOrderArray s.columns (s.orderArray.take s.maxOrder.toNat)))
      else some .fault

end ColumnLoad

def phLoadListViewColumnSettings (dpi : BitVec 32) (columns : List ListViewColumn)
    (settings : List WChar) (fuel : Nat) : Option LoadEnd :=
  if settings.length = 0 then some (.returned false columns)
  else
    let load (scale : BitVec 32) (remainingPart : List WChar) :=
      ColumnLoad.loadColumns phUpcaseUnicodeChar scale dpi fuel
        ⟨remainingPart, 0, List.replicate 50 0, 0, columns⟩
    if settings.headD 0 = 0x40 then
      let (_, scalePart, remainingPart) := splitParts phUpcaseUnicodeChar settings.tail 0x7c
      if scalePart.length = 0 then some (.returned false columns)
      else
        match parsedInteger scalePart 10 with
        | none => some (.returned false columns)
        | some integer => load (integer.setWidth 32) remainingPart
    else load dpi settings

end

/-! ## Groups -/

def phSaveListViewGroupStatesToSetting (s : PhSettings) (name : List WChar)
    (listView : ListViewGroups) : Except SettingException Unit × PhSettings :=
  let count : BitVec 32 := BitVec.ofNat 32 listView.groups.length
  let stringBuilder := printSigned count ++ [0x7c]
  let stringBuilder := listView.groups.foldl (fun stringBuilder group =>
    let group := listViewGetGroupInfo group lvgsMask
    stringBuilder ++ printSigned group.groupId ++ 0x7c :: printUnsigned group.state ++ [0x7c])
    stringBuilder
  let settingsString :=
    if stringBuilder.length ≠ 0 then stringBuilder.dropLast else stringBuilder
  s.phSetStringRefSetting name settingsString

variable (phUpcaseUnicodeChar : WChar → WChar)

/-- The loop of `PhLoadListViewGroupStatesFromSetting`. -/
def loadGroups (count : BitVec 32) :
    Nat → BitVec 32 → List WChar → ListViewGroups → Option ListViewGroups
  | 0, _, _, _ => none
  | fuel + 1, index, remaining, listView =>
      if index.toInt < count.toInt then
        if remaining.length = 0 then some listView
        else
          let (_, groupIdPart, remaining) := splitParts phUpcaseUnicodeChar remaining 0x7c
          if groupIdPart.length = 0 then some listView
          else
            let (_, stateMaskPart, remaining) := splitParts phUpcaseUnicodeChar remaining 0x7c
            if stateMaskPart.length = 0 then some listView
            else
              match parsedInteger groupIdPart 10, parsedInteger stateMaskPart 10 with
              | some groupId, some stateMask =>
                  loadGroups count fuel (index + 1) remaining
                    (listView.setGroupState (groupId.setWidth 32) lvgsMask
                      (stateMask.setWidth 32))
              | _, _ => some listView
      else some listView

def phLoadListViewGroupStatesFromSetting (s : PhSettings) (name : List WChar)
    (listView : ListViewGroups) (fuel : Nat) :
    Except SettingException (Option ListViewGroups) := do
  let settingsString ← s.phGetStringRefSetting name
  if settingsString.length = 0 then return some listView
  let (found, part, remaining) := splitParts phUpcaseUnicodeChar settingsString 0x7c
  if !found then return some listView
  match parsedInteger part 10 with
  | none => return some listView
  | some countInteger =>
      return loadGroups phUpcaseUnicodeChar (countInteger.setWidth 32) fuel 0 remaining listView

end SystemInformer.PhLib
