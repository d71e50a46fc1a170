import SystemInformer.Base.Words
import SystemInformer.Lib.BitField

/-!
# `handle.c`: handle tables

The entries stand in level 0 tables of 256 entries, and a table that grows gets one or two levels
of pointers above them. A level 0 table is known by its number in the order of allocation, and an
entry by its place among the entries of all of them. A free entry has the index of the next one
in `NextFreeValue`, which shares its bytes with `Value2`.

The calls are made one after the other: a lock that is tried is free, and a compare and exchange
finds what was read. A wait for a locked entry never ends and has no result, as an access through
a null pointer or outside of a table has none, and a loop that goes on for ever.
-/

namespace SystemInformer.PhLib

open BitField

structure PhHandleTableEntry where
  value : ULongPtr
  value2 : ULongPtr
  deriving DecidableEq

namespace PhHandleTableEntry

/-- `TypeAndValue.Type`. -/
def type (entry : PhHandleTableEntry) : BitVec 1 := get 0 1 entry.value

/-- `TypeAndValue.Locked`, which is 1 if the entry is not locked. -/
def locked (entry : PhHandleTableEntry) : BitVec 1 := get 1 1 entry.value

/-- `TypeAndValue.Value`. -/
def typeAndValue (entry : PhHandleTableEntry) : BitVec 62 := get 2 62 entry.value

def nextFreeValue (entry : PhHandleTableEntry) : ULong := get 0 32 entry.value2

def setNextFreeValue (entry : PhHandleTableEntry) (value : ULong) : PhHandleTableEntry :=
  { entry with value2 := put 0 value entry.value2 }

end PhHandleTableEntry

def phHandleValueInvalid : ULong := BitVec.allOnes 32

def phHandleTableLevelEntries : Nat := 256

def phHandleTableFreeCount : ULong := 64

def phpEncodeHandle (handleValue : ULong) : ULongPtr := ((handleValue <<< 2) + 4).setWidth 64

def phpDecodeHandle (handle : ULongPtr) : ULong := (handle.setWidth 32 - 4) >>> 2

/-- `TableValue`: the tables of pointers up to the level that it has in its low bits. -/
inductive HandleTableValue where
  | level0 (table0 : Nat)
  | level1 (table1 : Nat → Option Nat)
  | level2 (table2 : Nat → Option (Nat → Option Nat))

def tableSlot {α : Type} (table : Nat → Option α) (index : ULong) : Option α :=
  if index.toNat < phHandleTableLevelEntries then table index.toNat else none

/-- `&table0[index]`. -/
def entryAddress (table0 : Nat) (index : ULong) : Option Nat :=
  if index.toNat < phHandleTableLevelEntries then
    some (phHandleTableLevelEntries * table0 + index.toNat)
  else none

/-- `PH_HANDLE_TABLE`, with the entries and the number of level 0 tables allocated so far. -/
structure PhHandleTable where
  count : ULong
  tableValue : HandleTableValue
  freeValue : ULong
  nextValue : ULong
  freeValueAlt : ULong
  flags : ULong
  memory : Nat → PhHandleTableEntry
  allocated : Nat

namespace PhHandleTable

def setEntry (table : PhHandleTable) (entry : Nat) (contents : PhHandleTableEntry) :
    PhHandleTable :=
  { table with memory := Function.update table.memory entry contents }

/-- `entry->NextFreeValue = value`. -/
def setNextFreeValue (table : PhHandleTable) (entry : Nat) (value : ULong) : PhHandleTable :=
  table.setEntry entry ((table.memory entry).setNextFreeValue value)

/-- `PH_HANDLE_TABLE_STRICT_FIFO`. -/
def strictFifo (table : PhHandleTable) : Bool := table.flags &&& 1 ≠ 0

/-! ## Tables -/

/-- The place of an entry, or NULL. -/
def phpLookupHandleTableEntry (table : PhHandleTable) (handleValue : ULong) :
    Option (Option Nat) :=
  if table.nextValue ≤ handleValue then some none
  else
    -- No additional checking needed; already checked against NextValue.
    match table.tableValue with
    | .level0 table0 => (entryAddress table0 handleValue).map some
    | .level1 table1 => do
        let table0 ← tableSlot table1 (handleValue >>> 8)
        (entryAddress table0 (handleValue &&& 0xff)).map some
    | .level2 table2 => do
        let table1 ← tableSlot table2 (handleValue >>> 16)
        let table0 ← tableSlot table1 ((handleValue >>> 8) &&& 0xff)
        (entryAddress table0 (handleValue &&& 0xff)).map some

/-- A free entry of a new level 0 table, over what the memory had. -/
def freshEntry (baseValue : ULong) (old : PhHandleTableEntry) (i : Nat) : PhHandleTableEntry :=
  PhHandleTableEntry.setNextFreeValue { old with value := 1 }
    (if i + 1 < phHandleTableLevelEntries then baseValue + BitVec.ofNat 32 (i + 1)
      else phHandleValueInvalid)

/-- The next level 0 table, with free entries as all callers want it; its allocation succeeds. -/
def phpCreateHandleTableLevel0 (table : PhHandleTable) : Nat × PhHandleTable :=
  (table.allocated,
    { table with
      allocated := table.allocated + 1
      memory := fun entry =>
        if entry / phHandleTableLevelEntries = table.allocated then
          freshEntry table.nextValue (table.memory entry) (entry % phHandleTableLevelEntries)
        else table.memory entry })

/-- The tables after one level 0 table was added, and its pointer; nothing if an allocation
failed or there are too many handles. The n-th allocation succeeds if it is granted. -/
def addLevel0 (table : PhHandleTable) (granted : Nat → Bool) :
    Option (Option (Nat × PhHandleTable)) :=
  match table.tableValue with
  | .level0 old =>
      -- Create a level 1 table and move the existing level into it.
      if granted 0 && granted 1 then
        let (table0, table) := table.phpCreateHandleTableLevel0
        let table1 := Function.update (Function.update (fun _ => none) 0 (some old)) 1 (some table0)
        some (some (table0, { table with tableValue := .level1 table1 }))
      else some none
  | .level1 table1 =>
      let i := table.nextValue.toNat / phHandleTableLevelEntries
      if i < phHandleTableLevelEntries then
        if granted 0 then
          let (table0, table) := table.phpCreateHandleTableLevel0
          let table1 := Function.update table1 i (some table0)
          some (some (table0, { table with tableValue := .level1 table1 }))
        else some none
      else
        -- Create a level 2 table and move the existing level into it.
        if granted 0 && granted 1 && granted 2 then
          let (table0, table) := table.phpCreateHandleTableLevel0
          let new := Function.update (fun _ => none) 0 (some table0)
          let table2 := Function.update (Function.update (fun _ => none) 0 (some table1)) 1 (some new)
          some (some (table0, { table with tableValue := .level2 table2 }))
        else some none
  | .level2 table2 =>
      let i := table.nextValue.toNat / (phHandleTableLevelEntries * phHandleTableLevelEntries)
      -- Check if we have exceeded the maximum number of handles.
      if phHandleTableLevelEntries ≤ i then some none
      else
        match table2 i with
        | some table1 =>
            if granted 0 then
              let (table0, table) := table.phpCreateHandleTableLevel0
              let j := (table.nextValue.toNat -
                i * (phHandleTableLevelEntries * phHandleTableLevelEntries)) /
                phHandleTableLevelEntries
              let table1 := Function.update table1 j (some table0)
              if j < phHandleTableLevelEntries then
                some (some (table0,
                  { table with tableValue := .level2 (Function.update table2 i (some table1)) }))
              else none
            else some none
        | none =>
            if granted 0 && granted 1 then
              let (table0, table) := table.phpCreateHandleTableLevel0
              let new := Function.update (fun _ => none) 0 (some table0)
              some (some (table0,
                { table with tableValue := .level2 (Function.update table2 i (some new)) }))
            else some none

def phpAllocateMoreHandleTableEntries (table : PhHandleTable) (granted : Nat → Bool) :
    Option (Bool × PhHandleTable) := do
  match ← table.addLevel0 granted with
  | none => some (false, table)
  | some (table0, table) =>
      -- In each of the cases above, we allocated one additional level 0 table.
      let oldNextValue := table.nextValue
      let table := { table with
        nextValue := table.nextValue + BitVec.ofNat 32 phHandleTableLevelEntries }
      let last := phHandleTableLevelEntries * table0 + (phHandleTableLevelEntries - 1)
      let table := table.setNextFreeValue last table.freeValue
      some (true, { table with freeValue := oldNextValue })

/-! ## Free lists -/

/-- The chain from `index` on is reversed in front of `lastIndex`: the first entry of the new
chain, the number of entries and the entry that the new chain ends in. -/
def reverseChain : Nat → PhHandleTable → ULong → ULong → ULong → Option Nat →
    Option (ULong × ULong × Option Nat × PhHandleTable)
  | 0, _, _, _, _, _ => none
  | fuel + 1, table, index, lastIndex, count, firstEntry => do
      let entry ← (← table.phpLookupHandleTableEntry index)
      let count := count + 1
      let firstEntry := if lastIndex = phHandleValueInvalid then some entry else firstEntry
      let nextIndex := (table.memory entry).nextFreeValue
      let table := table.setNextFreeValue entry lastIndex
      if nextIndex = phHandleValueInvalid then some (index, count, firstEntry, table)
      else reverseChain fuel table nextIndex index count firstEntry

/-- A chain with more entries than there are handle values is a cycle. -/
def phpMoveFreeHandleTableEntries (table : PhHandleTable) : Option (ULong × PhHandleTable) :=
  -- Remove all entries from the alt. free list.
  let freeValueAlt := table.freeValueAlt
  let table := { table with freeValueAlt := phHandleValueInvalid }
  if freeValueAlt = phHandleValueInvalid then some (phHandleValueInvalid, table)
  else if !table.strictFifo && table.freeValue = phHandleValueInvalid then
    -- There are no entries in the main free list and we don't need to reverse the chain.
    some (freeValueAlt, { table with freeValue := freeValueAlt })
  else do
    let (index, count, firstEntry, table) ←
      reverseChain (table.nextValue.toNat + 1) table freeValueAlt phHandleValueInvalid 0 none
    let firstEntry ← firstEntry
    -- Push the entries onto the free list.
    let table := table.setNextFreeValue firstEntry table.freeValue
    let table := { table with freeValue := index }
    -- Force expansion if we don't have enough free handles.
    if table.strictFifo && count < phHandleTableFreeCount then some (phHandleValueInvalid, table)
    else some (index, table)

/-- The free value to go on with after the main free list was found empty; nothing if NULL is
returned. -/
def refill (table : PhHandleTable) (granted : Nat → Bool) :
    Option (Option ULong × PhHandleTable) := do
  let (freeValue, table) ← table.phpMoveFreeHandleTableEntries
  if freeValue ≠ phHandleValueInvalid then some (some freeValue, table)
  else do
    let (result, table) ← table.phpAllocateMoreHandleTableEntries granted
    if !result && table.freeValue = phHandleValueInvalid then some (none, table)
    else some (some table.freeValue, table)

/-- The inner loop of `PhpAllocateHandleTableEntry`. -/
def findFreeValue (granted : Nat → Bool) :
    Nat → PhHandleTable → ULong → Option (Option ULong × PhHandleTable)
  | 0, _, _ => none
  | fuel + 1, table, freeValue =>
      if freeValue ≠ phHandleValueInvalid then some (some freeValue, table)
      else do
        match ← table.refill granted with
        | (none, table) => some (none, table)
        | (some freeValue, table) => findFreeValue granted fuel table freeValue

/-- The place of the entry and the handle value, or NULL. Two passes of the inner loop are
enough, for a pass that does not return leaves a free value. -/
def phpAllocateHandleTableEntry (table : PhHandleTable) (granted : Nat → Bool) :
    Option (Option (Nat × ULong) × PhHandleTable) := do
  match ← findFreeValue granted 2 table table.freeValue with
  | (none, table) => some (none, table)
  | (some freeValue, table) =>
      let entry ← (← table.phpLookupHandleTableEntry freeValue)
      let table := { table with
        freeValue := (table.memory entry).nextFreeValue
        count := table.count + 1 }
      some (some (entry, freeValue), table)

def phpFreeHandleTableEntry (table : PhHandleTable) (handleValue : ULong) (entry : Nat) :
    PhHandleTable :=
  let table := { table with count := table.count - 1 }
  -- We always use the alt. free list if strict FIFO is enabled.
  if table.strictFifo then
    { table.setNextFreeValue entry table.freeValueAlt with freeValueAlt := handleValue }
  else
    { table.setNextFreeValue entry table.freeValue with freeValue := handleValue }

/-! ## Handles -/

/-- The handle table, or NULL. -/
def phCreateHandleTable (memory : Nat → PhHandleTableEntry) (granted : Nat → Bool) :
    Option PhHandleTable :=
  if granted 0 && granted 1 then
    let table : PhHandleTable :=
      { count := 0
        tableValue := .level0 0
        freeValue := 0
        nextValue := 0
        freeValueAlt := phHandleValueInvalid
        flags := 0
        memory
        allocated := 0 }
    let (table0, table) := table.phpCreateHandleTableLevel0
    some { table with
      tableValue := .level0 table0
      nextValue := BitVec.ofNat 32 phHandleTableLevelEntries }
  else none

def phLockHandleTableEntry (table : PhHandleTable) (entry : Nat) : Option (Bool × PhHandleTable) :=
  let contents := table.memory entry
  if contents.value &&& 1 ≠ 0 then some (false, table)
  else if contents.value &&& 2 ≠ 0 then
    some (true, table.setEntry entry { contents with value := contents.value - 2 })
  else none

def phUnlockHandleTableEntry (table : PhHandleTable) (entry : Nat) : PhHandleTable :=
  let contents := table.memory entry
  table.setEntry entry { contents with value := contents.value ||| 2 }

/-- The handle, or NULL. -/
def phCreateHandle (table : PhHandleTable) (granted : Nat → Bool)
    (handleTableEntry : PhHandleTableEntry) : Option (Option ULongPtr × PhHandleTable) := do
  match ← table.phpAllocateHandleTableEntry granted with
  | (none, table) => some (none, table)
  | (some (entry, handleValue), table) =>
      -- Copy the given handle table entry to the allocated entry.
      let contents := table.memory entry
      let value := put 2 handleTableEntry.typeAndValue (put 0 (0 : BitVec 1) contents.value)
      let table := table.setEntry entry ⟨value, handleTableEntry.value2⟩
      some (some (phpEncodeHandle handleValue), table.phUnlockHandleTableEntry entry)

/-- The entry is marked free and goes to a free list. -/
def releaseEntry (table : PhHandleTable) (handleValue : ULong) (entry : Nat) : PhHandleTable :=
  let contents := table.memory entry
  (table.setEntry entry { contents with value := 1 }).phpFreeHandleTableEntry handleValue entry

def phDestroyHandle (table : PhHandleTable) (handle : ULongPtr) (handleTableEntry : Option Nat) :
    Option (Bool × PhHandleTable) :=
  let handleValue := phpDecodeHandle handle
  match handleTableEntry with
  | some entry => some (true, table.releaseEntry handleValue entry)
  | none => do
      match ← table.phpLookupHandleTableEntry handleValue with
      | none => some (false, table)
      | some entry =>
          match ← table.phLockHandleTableEntry entry with
          | (false, table) => some (false, table)
          | (true, table) => some (true, table.releaseEntry handleValue entry)

/-- The place of the locked entry, or NULL. -/
def phLookupHandleTableEntry (table : PhHandleTable) (handle : ULongPtr) :
    Option (Option Nat × PhHandleTable) := do
  match ← table.phpLookupHandleTableEntry (phpDecodeHandle handle) with
  | none => some (none, table)
  | some entry =>
      match ← table.phLockHandleTableEntry entry with
      | (false, table) => some (none, table)
      | (true, table) => some (some entry, table)

/-- `HandleTableFlagsInformation` with a buffer of its size; whether the flags are valid. -/
def phSetInformationHandleTable (table : PhHandleTable) (flags : ULong) : Bool × PhHandleTable :=
  if flags &&& 1 = flags then (true, { table with flags }) else (false, table)

/-! ## Calls -/

inductive HandleCall where
  | create (granted : Nat → Bool) (entry : PhHandleTableEntry)
  | destroy (handle : ULongPtr)
  | destroyEntry (handle : ULongPtr) (entry : Nat)
  | lookup (handle : ULongPtr)
  | unlock (entry : Nat)
  | setInformation (flags : ULong)

inductive HandleResult where
  | handle (handle : Option ULongPtr)
  | boolean (result : Bool)
  | entry (entry : Option Nat)
  | void
  deriving DecidableEq

def perform (table : PhHandleTable) : HandleCall → Option (HandleResult × PhHandleTable)
  | .create granted entry =>
      (table.phCreateHandle granted entry).map fun (handle, table) => (.handle handle, table)
  | .destroy handle =>
      (table.phDestroyHandle handle none).map fun (result, table) => (.boolean result, table)
  | .destroyEntry handle entry =>
      (table.phDestroyHandle handle (some entry)).map fun (result, table) =>
        (.boolean result, table)
  | .lookup handle =>
      (table.phLookupHandleTableEntry handle).map fun (entry, table) => (.entry entry, table)
  | .unlock entry => some (.void, table.phUnlockHandleTableEntry entry)
  | .setInformation flags =>
      let (result, table) := table.phSetInformationHandleTable flags
      some (.boolean result, table)

end PhHandleTable

end SystemInformer.PhLib
