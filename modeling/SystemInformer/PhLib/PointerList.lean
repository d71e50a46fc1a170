import SystemInformer.Base.Words
import SystemInformer.Lib.Cells

/-!
# `basesup.c`: pointer lists

A slot of the array holds a pointer, whose low bit is clear, or the index of the next free slot,
shifted and with the low bit set. The word that ends the chain is -1 before and after the shifts.
A slot from `NextEntry` on was never used. An access outside of the array, or the use of a cell
that nothing was written to, has no result.
-/

namespace SystemInformer.PhLib

structure PhPointerList where
  count : ULong
  allocatedCount : ULong
  freeEntry : ULong
  nextEntry : ULong
  items : List (Option ULongPtr)

def isListPointerValid (pointer : ULongPtr) : Bool := pointer &&& 1 = 0

def ulongMax : ULong := BitVec.allOnes 32

namespace PhPointerList

def phCreatePointerList (initialCapacity : ULong) : PhPointerList :=
  -- Initial capacity of 0 is not allowed.
  let initialCapacity := if initialCapacity = 0 then 1 else initialCapacity
  { count := 0
    allocatedCount := initialCapacity
    freeEntry := ulongMax
    nextEntry := 0
    items := List.replicate initialCapacity.toNat none }

/-- Shift right on a signed value preserves the sign, so that -1 is decoded from its encoding. -/
def phpDecodePointerListIndex (index : ULongPtr) : ULong := (index.sshiftRight 1).setWidth 32

def phpEncodePointerListIndex (index : ULong) : ULongPtr := index.setWidth 64 <<< 1 ||| 1

/-- One is added to allow NULL handles to indicate failure. -/
def phpPointerListIndexToHandle (index : ULong) : ULongPtr := (index + 1).setWidth 64

def phpPointerListHandleToIndex (handle : ULongPtr) : ULong := handle.setWidth 32 - 1

/-- `Items[index]`. -/
def item (list : PhPointerList) (index : ULong) : Option ULongPtr := list.items[index.toNat]?.join

/-- `Items[index] = value`. -/
def setItem (list : PhPointerList) (index : ULong) (value : ULongPtr) : Option PhPointerList :=
  (Cells.write list.items index.toNat [some value]).map fun items => { list with items }

def phAddItemPointerList (list : PhPointerList) (pointer : ULongPtr) :
    Option (ULongPtr × PhPointerList) :=
  -- Use a free entry if possible.
  if list.freeEntry ≠ ulongMax then do
    let index := list.freeEntry
    let oldPointer ← list.item index
    let list ← list.setItem index pointer
    some (phpPointerListIndexToHandle index,
      { list with freeEntry := phpDecodePointerListIndex oldPointer, count := list.count + 1 })
  else do
    -- Use the next entry.
    let list :=
      if list.nextEntry = list.allocatedCount then
        { list with
          allocatedCount := list.allocatedCount * 2
          items := Cells.resize list.items (list.allocatedCount * 2).toNat }
      else list
    let index := list.nextEntry
    let list ← list.setItem index pointer
    some (phpPointerListIndexToHandle index,
      { list with nextEntry := index + 1, count := list.count + 1 })

/-- The next key, and the pointer and its handle if the function returned true. -/
def phEnumPointerListEx (list : PhPointerList) (enumerationKey : ULong) :
    Option (ULong × Option (ULongPtr × ULongPtr)) :=
  if _h : enumerationKey < list.nextEntry then do
    let pointer ← list.item enumerationKey
    if isListPointerValid pointer then
      some (enumerationKey + 1, some (pointer, phpPointerListIndexToHandle enumerationKey))
    else phEnumPointerListEx list (enumerationKey + 1)
  else some (enumerationKey, none)
termination_by list.nextEntry.toNat - enumerationKey.toNat
decreasing_by
  have hlt := BitVec.lt_def.mp _h
  have hnext : (enumerationKey + 1).toNat = enumerationKey.toNat + 1 := by
    have := list.nextEntry.isLt
    rw [BitVec.toNat_add]
    exact Nat.mod_eq_of_lt (by simp; omega)
  omega

def phRemoveItemPointerList (list : PhPointerList) (pointerHandle : ULongPtr) :
    Option PhPointerList := do
  let index := phpPointerListHandleToIndex pointerHandle
  let list ← list.setItem index (phpEncodePointerListIndex list.freeEntry)
  some { list with freeEntry := index, count := list.count - 1 }

end PhPointerList

end SystemInformer.PhLib
