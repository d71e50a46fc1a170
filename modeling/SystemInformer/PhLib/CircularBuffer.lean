import SystemInformer.Lib.Overlay
import SystemInformer.PhLib.Rounding

/-!
# Circular buffers (`circbuf_h.h`, `circbuf_i.h`)

The buffers of the library have a power of two as their size (`PH_CIRCULAR_BUFFER_POWER_OF_TWO_SIZE`
is defined). The last item is at `Index`, and the ones before it follow.

An array is a list of cells; a cell that was never written holds nothing. An access outside of an
array has no result. Indices are used as natural numbers, so that a negative one is outside of
every array. The type of the items is arbitrary.
-/

namespace SystemInformer.PhLib

variable {α : Type}

/-- `memcpy(&destination[position], &source[start], sizeof(T) * count)`. -/
def copyItems (destination : List (Option α)) (position : ULong) (source : List (Option α))
    (start count : ULong) : Option (List (Option α)) :=
  if start.toNat + count.toNat ≤ source.length ∧
      position.toNat + count.toNat ≤ destination.length then
    some (Overlay.overlay none destination position.toNat
      ((source.drop start.toNat).take count.toNat))
  else none

structure PhCircularBuffer (α : Type) where
  size : ULong
  sizeMinusOne : ULong
  count : ULong
  index : BitVec 32
  data : List (Option α)

namespace PhCircularBuffer

def phInitializeCircularBuffer (size : ULong) : PhCircularBuffer α where
  size := phRoundUpToPowerOfTwo size
  sizeMinusOne := phRoundUpToPowerOfTwo size - 1
  count := 0
  index := 0
  data := List.replicate (phRoundUpToPowerOfTwo size).toNat none

def phResizeCircularBuffer (buffer : PhCircularBuffer α) (newSize : ULong) :
    Option (PhCircularBuffer α) :=
  let newSize := phRoundUpToPowerOfTwo newSize
  -- If we're not actually resizing it, return.
  if newSize = buffer.size then some buffer
  else do
    let newData := List.replicate newSize.toNat none
    let tailSize := buffer.size - buffer.index
    let headSize := buffer.count - tailSize
    if buffer.size < newSize then
      -- Copy the tail, then the head.
      let newData ← copyItems newData 0 buffer.data buffer.index tailSize
      let newData ← copyItems newData tailSize buffer.data 0 headSize
      some ⟨newSize, newSize - 1, buffer.count, 0, newData⟩
    else
      let newData ←
        if newSize ≤ tailSize then
          -- Copy only a part of the tail.
          copyItems newData 0 buffer.data buffer.index newSize
        else do
          -- Copy the tail, then only part of the head.
          let newData ← copyItems newData 0 buffer.data buffer.index tailSize
          copyItems newData tailSize buffer.data 0 (newSize - tailSize)
      let count := if newSize < buffer.count then newSize else buffer.count
      some ⟨newSize, newSize - 1, count, 0, newData⟩

def phClearCircularBuffer (buffer : PhCircularBuffer α) : PhCircularBuffer α :=
  { buffer with count := 0, index := 0 }

/-- `PhCopyCircularBuffer`: the new contents of the destination. -/
def phCopyCircularBuffer (buffer : PhCircularBuffer α) (destination : List (Option α))
    (count : ULong) : Option (List (Option α)) := do
  let tailSize := buffer.size - buffer.index
  let count := if buffer.count < count then buffer.count else count
  if count ≤ tailSize then
    -- Copy only a part of the tail.
    copyItems destination 0 buffer.data buffer.index count
  else
    -- Copy the tail, then only part of the head.
    let destination ← copyItems destination 0 buffer.data buffer.index tailSize
    copyItems destination tailSize buffer.data 0 (count - tailSize)

/-- `PhGetItemCircularBuffer`: the cell that it reads. -/
def phGetItemCircularBuffer (buffer : PhCircularBuffer α) (index : BitVec 32) :
    Option (Option α) :=
  buffer.data[((buffer.index + index) &&& buffer.sizeMinusOne).toNat]?

/-- `Data[index] = value`. -/
def setData (buffer : PhCircularBuffer α) (index : BitVec 32) (value : α) :
    Option (PhCircularBuffer α) :=
  if index.toNat < buffer.data.length then
    some { buffer with data := buffer.data.set index.toNat (some value) }
  else none

def incrementCount (buffer : PhCircularBuffer α) : PhCircularBuffer α :=
  if buffer.count < buffer.size then { buffer with count := buffer.count + 1 } else buffer

def phAddItemCircularBuffer (buffer : PhCircularBuffer α) (value : α) :
    Option (PhCircularBuffer α) := do
  let index := (buffer.index - 1) &&& buffer.sizeMinusOne
  let buffer ← setData { buffer with index := index } index value
  some buffer.incrementCount

/-- `PhAddItemCircularBuffer2`: also the cell that was there before. -/
def phAddItemCircularBuffer2 (buffer : PhCircularBuffer α) (value : α) :
    Option (Option α × PhCircularBuffer α) := do
  let index := (buffer.index - 1) &&& buffer.sizeMinusOne
  let oldValue ← buffer.data[index.toNat]?
  let buffer ← setData { buffer with index := index } index value
  some (oldValue, buffer.incrementCount)

inductive Operation (α : Type) where
  | add (value : α)
  | add2 (value : α)
  | clear
  | resize (newSize : ULong)

def perform (buffer : PhCircularBuffer α) : Operation α → Option (PhCircularBuffer α)
  | .add value => buffer.phAddItemCircularBuffer value
  | .add2 value => (buffer.phAddItemCircularBuffer2 value).map Prod.snd
  | .clear => some buffer.phClearCircularBuffer
  | .resize newSize => buffer.phResizeCircularBuffer newSize

/-- A buffer after its initialization and some calls. -/
def run (size : ULong) (operations : List (Operation α)) : Option (PhCircularBuffer α) :=
  operations.foldlM perform (phInitializeCircularBuffer size)

end PhCircularBuffer

end SystemInformer.PhLib
