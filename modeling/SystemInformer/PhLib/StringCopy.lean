import SystemInformer.PhLib.StringRef
import SystemInformer.Lib.Cells

/-!
# Bounded string copies (`basesup.c`)

`PhCopyBytesZ`, `PhCopyStringZ` and `PhCopyStringZFromBytes` are one text over different characters.
Each adds the size of a terminator to the count of the characters before it: `sizeof(ANSI_NULL)`,
which is one character, or `sizeof(UNICODE_NULL)`, which are two bytes.

`PhCountStringZ` compares blocks of 16 bytes with zero. The first block begins where the 16 bytes
do that the string starts in, so what stands there before the string is part of the input.
-/

namespace SystemInformer.PhLib

def sizeMax : Nat := 2 ^ 64 - 1

/-- `sizeof(ANSI_NULL)`. -/
def sizeofAnsiNull : Nat := 1

/-- `sizeof(UNICODE_NULL)`. -/
def sizeofUnicodeNull : Nat := 2

/-- `InputBuffer` and `InputCount`: characters of `unit` bytes, of which those up to a terminator or
up to the limit can be read. -/
structure CopyInput (α : Type) [Zero α] (unit : Nat) where
  before : List α
  memory : List α
  inputCount : Nat
  inputCount_le : inputCount ≤ sizeMax
  readable : 0 ∈ memory ∨ (inputCount ≠ sizeMax ∧ inputCount ≤ memory.length)
  memory_fits : unit * memory.length ≤ sizeMax
  before_lt : unit * before.length < 16

/-- `OutputBuffer`, where it is not `NULL`, `OutputCount` and whether there is a `ReturnCount`. -/
structure CopyOutput (β : Type) where
  buffer : Option (List β)
  outputCount : Nat
  hasReturnCount : Bool
  buffer_length : ∀ output, buffer = some output → output.length = outputCount

structure CopyResult (β : Type) where
  copied : Bool
  buffer : Option (List β)
  returnCount : Option Nat

section

variable {α β : Type} [Zero α] [DecidableEq α] [Zero β]

/-- The loop that counts, at `i` with the rest of the memory. -/
def countLimited (inputCount : Nat) : Nat → List α → Nat
  | i, [] => i
  | i, c :: rest => if i < inputCount ∧ c ≠ 0 then countLimited inputCount (i + 1) rest else i

/-- `strlen` and `wcslen`, of memory with a terminator. -/
def terminatedLength (memory : List α) : Nat := (memory.takeWhile (· ≠ 0)).length

/-- The text of the three functions: `countStringZ` counts a terminated string, `nullSize` is the
size added for the terminator, and `extend` is how a character is stored. -/
def copyZ {unit : Nat} (nullSize : Nat) (countStringZ : List α → List α → Nat) (extend : α → β)
    (input : CopyInput α unit) (output : CopyOutput β) : CopyResult β :=
  let i := if input.inputCount ≠ sizeMax then countLimited input.inputCount 0 input.memory
    else countStringZ input.before input.memory
  let returnCount := if output.hasReturnCount then some ((i + nullSize) % 2 ^ 64) else none
  match output.buffer with
  | some buffer =>
      if (i + nullSize) % 2 ^ 64 ≤ output.outputCount then
        ⟨true, some ((input.memory.take i).map extend ++ 0 :: buffer.drop (i + 1)), returnCount⟩
      else ⟨false, some buffer, returnCount⟩
  | none => ⟨false, none, returnCount⟩

end

/-- The loop of `PhCountStringZ` over blocks of eight characters, from `position` on. -/
def countBlocks : Nat → Nat → List WChar → Nat
  | 0, position, _ => position
  | blocks + 1, position, memory =>
      match bitScanForward (compareMask 0 (memory.take 8)) with
      | some index => position + index / 2
      | none => countBlocks blocks (position + 8) (memory.drop 8)

/-- `PhCountStringZ`, of memory with a terminator. -/
def phCountStringZ (processor : Processor) (before memory : List WChar) : Nat :=
  if processor.hasIntrinsics then
    let unaligned := 2 * before.length
    let p := 8 - before.length
    if unaligned ≠ 0 then
      match bitScanForward ((compareMask 0 (before ++ memory.take p)).drop unaligned) with
      | some index => index / 2
      | none => countBlocks memory.length p (memory.drop p)
    else countBlocks memory.length 0 memory
  else terminatedLength memory

def c1uTo2 (c : UInt8) : WChar := UInt16.ofNat c.toNat

def phCopyBytesZ : CopyInput UInt8 1 → CopyOutput UInt8 → CopyResult UInt8 :=
  copyZ sizeofAnsiNull (fun _ memory => terminatedLength memory) id

def phCopyStringZ (processor : Processor) : CopyInput WChar 2 → CopyOutput WChar →
    CopyResult WChar :=
  copyZ sizeofUnicodeNull (phCountStringZ processor) id

/-- `PhCopyStringZFromBytes`, with what `PhZeroExtendToUtf16Buffer` stores. -/
def phCopyStringZFromBytes : CopyInput UInt8 1 → CopyOutput WChar → CopyResult WChar :=
  copyZ sizeofAnsiNull (fun _ memory => terminatedLength memory) c1uTo2

/-! ## Cursors over the memory of a string

`PhCountStringZ` moves a pointer from one aligned block of 16 bytes to the next, the first of which
may begin before the string, and `PhReverseStringRef` moves two indices towards each other. Here
the pointer is an address and the indices are a `SIZE_T`, so that it shows which blocks are loaded
and which characters are accessed. A loop that has used its fuel is still running. -/

/-- Memory, by the character at each even address. -/
structure WideMemory where
  char : ULongPtr → WChar

namespace WideMemory

/-- `PhLoadINT128`. -/
def load (memory : WideMemory) (p : ULongPtr) : List WChar :=
  (List.range 8).map fun k => memory.char (p + BitVec.ofNat 64 (2 * k))

/-- The loop of `PhCountStringZ` from the block at `p` on; the blocks at `loaded` have been loaded
before it. The pointer is never before the string here. -/
def countStringLoop (memory : WideMemory) (string : ULongPtr) :
    Nat → ULongPtr → List ULongPtr → Option (Nat × List ULongPtr)
  | 0, _, _ => none
  | fuel + 1, p, loaded =>
      match bitScanForward (compareMask 0 (memory.load p)) with
      | some index => some ((p - string).toNat / 2 + index / 2, loaded ++ [p])
      | none => countStringLoop memory string fuel (p + 16) (loaded ++ [p])

/-- `PhCountStringZ` with intrinsics: the count, and the blocks that are loaded. -/
def phCountStringZ (memory : WideMemory) (string : ULongPtr) (fuel : Nat) :
    Option (Nat × List ULongPtr) :=
  let p := string &&& ~~~0xe
  let unaligned := (string &&& 0xf).toNat
  if unaligned ≠ 0 then
    match bitScanForward ((compareMask 0 (memory.load p)).drop unaligned) with
    | some index => some (index / 2, [p])
    | none => countStringLoop memory string fuel (p + 16) [p]
  else countStringLoop memory string fuel p []

end WideMemory

inductive ReverseEnd where
  | running
  | outside
  | reversed (buffer : List WChar)
  deriving DecidableEq

/-- The loop of `PhReverseStringRef`. An access behind the characters is `outside`. -/
def reverseLoop : Nat → UInt64 → UInt64 → List WChar → ReverseEnd
  | 0, _, _, _ => .running
  | fuel + 1, i, j, buffer =>
      if i ≤ j then
        if i.toNat < buffer.length ∧ j.toNat < buffer.length then
          let t := buffer.getD i.toNat 0
          reverseLoop fuel (i + 1) (j - 1)
            ((buffer.set i.toNat (buffer.getD j.toNat 0)).set j.toNat t)
        else .outside
      else .reversed buffer

def phReverseStringRef (buffer : List WChar) (fuel : Nat) : ReverseEnd :=
  reverseLoop fuel 0 (UInt64.ofNat buffer.length - 1) buffer

/-! ## Strings with an ellipsis (`util.c`)

A new string is a block of characters of which none is written, and parts of the old one are
copied to it. On 64 bits `PhHasIntrinsics` is `TRUE`. -/

/-- `...`. -/
def ellipsis : List WChar := [0x2e, 0x2e, 0x2e]

/-- `memcpy` of `count` characters from `index` on. It has no result where it would leave one of the
buffers. -/
def copyChars (target : List (Option WChar)) (position : Nat) (source : List WChar)
    (index count : Nat) : Option (List (Option WChar)) :=
  if index + count ≤ source.length then
    Cells.write target position (((source.drop index).take count).map some)
  else none

/-- What is returned: the string itself, or a new one. -/
inductive EllipsisResult where
  | itself
  | created (buffer : List (Option WChar))
  deriving DecidableEq

variable (phUpcaseUnicodeChar : WChar → WChar)

end SystemInformer.PhLib
