import SystemInformer.Base.Words
import SystemInformer.Lib.Cells

/-!
# `basesup.c`: arrays and lists

`PH_ARRAY` and `PH_LIST` are the same container: a block of items of which the first `Count` are
in use, moved to a larger block when it is full. An array counts in `SIZE_T` and carries the size
of its items, a list counts in `ULONG` and holds pointers. The functions that both have are one
definition over the width of the counts and the size of an item.

The size of a block is computed in bytes and in 64 bits, so a block has the items that fit into
what is left of the product. An access outside of the block ends the call.
-/

namespace SystemInformer.PhLib

open Cells

variable {α : Type} {w : Nat}

/-- What ends a call: a raised `STATUS_INVALID_PARAMETER_2`, or an access outside of the items. -/
inductive ItemFault where
  | invalidParameter2
  | outsideItems
  deriving DecidableEq, Repr

/-- The items in `Count * ItemSize` bytes; items without bytes take no room. -/
def itemsIn (itemSize count : Nat) : Nat :=
  if itemSize = 0 then count else count * itemSize % 2 ^ 64 / itemSize

def inItems {β : Type} (result : Option β) : Except ItemFault β :=
  result.elim (.error .outsideItems) .ok

structure ItemBuffer (w : Nat) (α : Type) where
  count : BitVec w
  allocatedCount : BitVec w
  items : List (Option α)

namespace ItemBuffer

def create (itemSize : Nat) (initialCapacity : BitVec w) : ItemBuffer w α :=
  -- Initial capacity of 0 is not allowed.
  let initialCapacity := if initialCapacity = 0 then 1 else initialCapacity
  ⟨0, initialCapacity, List.replicate (itemsIn itemSize initialCapacity.toNat) none⟩

/-- `AllocatedCount` is set and the items are reallocated. -/
def reAllocate (itemSize : Nat) (buffer : ItemBuffer w α) (allocatedCount : BitVec w) :
    ItemBuffer w α :=
  { buffer with
    allocatedCount
    items := Cells.resize buffer.items (itemsIn itemSize allocatedCount.toNat) }

def resize (itemSize : Nat) (buffer : ItemBuffer w α) (newCapacity : BitVec w) :
    Except ItemFault (ItemBuffer w α) :=
  if newCapacity < buffer.count then .error .invalidParameter2
  else .ok (buffer.reAllocate itemSize newCapacity)

def addItem (itemSize : Nat) (buffer : ItemBuffer w α) (item : α) :
    Except ItemFault (ItemBuffer w α) := do
  -- See if we need to resize the list.
  let buffer :=
    if buffer.count = buffer.allocatedCount then
      buffer.reAllocate itemSize (buffer.allocatedCount * 2)
    else buffer
  let items ← inItems (write buffer.items buffer.count.toNat [some item])
  .ok { buffer with count := buffer.count + 1, items }

/-- The capacity after room for `count` more items was asked for. -/
def grownCapacity (buffer : ItemBuffer w α) (count : BitVec w) : BitVec w :=
  let allocatedCount := buffer.allocatedCount * 2
  if allocatedCount < buffer.count + count then buffer.count + count else allocatedCount

/-- The room that `PhAddItems…` and `PhInsertItems…` make. -/
def grow (itemSize : Nat) (buffer : ItemBuffer w α) (count : BitVec w) : ItemBuffer w α :=
  -- See if we need to resize the list.
  if buffer.allocatedCount < buffer.count + count then
    buffer.reAllocate itemSize (buffer.grownCapacity count)
  else buffer

/-- The cells that a copy of `count` items puts into the block. -/
def copied (itemSize : Nat) (items : List α) (count : BitVec w) : List (Option α) :=
  (items.take (itemsIn itemSize count.toNat)).map some

def addItems (itemSize : Nat) (buffer : ItemBuffer w α) (items : List α) (count : BitVec w) :
    Except ItemFault (ItemBuffer w α) := do
  let buffer := buffer.grow itemSize count
  let cells ← inItems (write buffer.items buffer.count.toNat (copied itemSize items count))
  .ok { buffer with count := buffer.count + count, items := cells }

def clear (buffer : ItemBuffer w α) : ItemBuffer w α := { buffer with count := 0 }

def insertItems (itemSize : Nat) (buffer : ItemBuffer w α) (index : BitVec w) (items : List α)
    (count : BitVec w) : Except ItemFault (ItemBuffer w α) := do
  let buffer := buffer.grow itemSize count
  let cells ←
    if index < buffer.count then
      -- Shift the existing items backward.
      inItems (move buffer.items (index + count).toNat index.toNat
        (itemsIn itemSize (buffer.count - index).toNat))
    else .ok buffer.items
  -- Copy the new items into the list.
  let cells ← inItems (write cells index.toNat (copied itemSize items count))
  .ok { buffer with count := buffer.count + count, items := cells }

def removeItems (itemSize : Nat) (buffer : ItemBuffer w α) (startIndex count : BitVec w) :
    Except ItemFault (ItemBuffer w α) := do
  -- Shift the items after the items forward.
  let cells ← inItems (move buffer.items startIndex.toNat (startIndex + count).toNat
    (itemsIn itemSize (buffer.count - startIndex - count).toNat))
  .ok { buffer with count := buffer.count - count, items := cells }

end ItemBuffer

/-! ## Arrays -/

structure PhArray (α : Type) extends ItemBuffer 64 α where
  itemSize : ULongPtr

namespace PhArray

def phInitializeArray (itemSize initialCapacity : ULongPtr) : PhArray α where
  toItemBuffer := ItemBuffer.create itemSize.toNat initialCapacity
  itemSize := itemSize

/-- The array with its other fields as a function over them left them. -/
def withBuffer (array : PhArray α) (result : Except ItemFault (ItemBuffer 64 α)) :
    Except ItemFault (PhArray α) :=
  result.map fun buffer => { array with toItemBuffer := buffer }

def phResizeArray (array : PhArray α) (newCapacity : ULongPtr) : Except ItemFault (PhArray α) :=
  array.withBuffer (array.toItemBuffer.resize array.itemSize.toNat newCapacity)

def phAddItemArray (array : PhArray α) (item : α) : Except ItemFault (PhArray α) :=
  array.withBuffer (array.toItemBuffer.addItem array.itemSize.toNat item)

def phAddItemsArray (array : PhArray α) (items : List α) (count : ULongPtr) :
    Except ItemFault (PhArray α) :=
  array.withBuffer (array.toItemBuffer.addItems array.itemSize.toNat items count)

def phClearArray (array : PhArray α) : PhArray α :=
  { array with toItemBuffer := array.toItemBuffer.clear }

def phRemoveItemsArray (array : PhArray α) (startIndex count : ULongPtr) :
    Except ItemFault (PhArray α) :=
  array.withBuffer (array.toItemBuffer.removeItems array.itemSize.toNat startIndex count)

def phRemoveItemArray (array : PhArray α) (index : ULongPtr) : Except ItemFault (PhArray α) :=
  array.phRemoveItemsArray index 1

end PhArray

/-! ## Lists -/

/-- `sizeof(PVOID)`. -/
def sizeofPVoid : Nat := 8

abbrev PhList (α : Type) := ItemBuffer 32 α

namespace PhList

def phCreateList (initialCapacity : ULong) : PhList α :=
  ItemBuffer.create sizeofPVoid initialCapacity

def phResizeList (list : PhList α) (newCapacity : ULong) : Except ItemFault (PhList α) :=
  list.resize sizeofPVoid newCapacity

def phAddItemList (list : PhList α) (item : α) : Except ItemFault (PhList α) :=
  list.addItem sizeofPVoid item

def phAddItemsList (list : PhList α) (items : List α) (count : ULong) :
    Except ItemFault (PhList α) :=
  list.addItems sizeofPVoid items count

def phClearList (list : PhList α) : PhList α := list.clear

def phInsertItemsList (list : PhList α) (index : ULong) (items : List α) (count : ULong) :
    Except ItemFault (PhList α) :=
  list.insertItems sizeofPVoid index items count

def phInsertItemList (list : PhList α) (index : ULong) (item : α) :
    Except ItemFault (PhList α) :=
  list.phInsertItemsList index [item] 1

def phRemoveItemsList (list : PhList α) (startIndex count : ULong) :
    Except ItemFault (PhList α) :=
  list.removeItems sizeofPVoid startIndex count

def phRemoveItemList (list : PhList α) (index : ULong) : Except ItemFault (PhList α) :=
  list.phRemoveItemsList index 1

end PhList

/-! ## Calls -/

inductive ItemCall (w : Nat) (α : Type) where
  | addItem (item : α)
  | addItems (items : List α)
  | removeItems (startIndex count : BitVec w)
  | resize (newCapacity : BitVec w)
  | clear

def PhArray.perform (array : PhArray α) : ItemCall 64 α → Except ItemFault (PhArray α)
  | .addItem item => array.phAddItemArray item
  | .addItems items => array.phAddItemsArray items (BitVec.ofNat 64 items.length)
  | .removeItems startIndex count => array.phRemoveItemsArray startIndex count
  | .resize newCapacity => array.phResizeArray newCapacity
  | .clear => .ok array.phClearArray

inductive ListCall (α : Type) where
  | shared (call : ItemCall 32 α)
  | insertItems (index : ULong) (items : List α)

def PhList.perform (list : PhList α) : ListCall α → Except ItemFault (PhList α)
  | .shared (.addItem item) => list.phAddItemList item
  | .shared (.addItems items) => list.phAddItemsList items (BitVec.ofNat 32 items.length)
  | .shared (.removeItems startIndex count) => list.phRemoveItemsList startIndex count
  | .shared (.resize newCapacity) => list.phResizeList newCapacity
  | .shared .clear => .ok list.phClearList
  | .insertItems index items =>
      list.phInsertItemsList index items (BitVec.ofNat 32 items.length)

end SystemInformer.PhLib
