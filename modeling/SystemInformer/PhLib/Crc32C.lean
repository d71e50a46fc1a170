import SystemInformer.Base.Words
import SystemInformer.Lib.Bytes

/-!
# The CRC-32C of a buffer (`util.c`)

`PhCrc32C` on x64, where the processor takes 8, 16, 32 or 64 bits into the remainder at once. The
expressions that should step through the buffer, `(*(PUSHORT)Buffer)++` and its like, add one to
the data that the pointer stands at, and the pointer stays where it is. `u8_blocks` is a remainder
of a division by `sizeof(UCHAR)`.
-/

namespace SystemInformer.PhLib

open Bytes

/-- One bit of data is taken into the remainder, the least significant bit first. -/
def crc32Bit (crc : ULong) (bit : Bool) : ULong :=
  if crc.getLsbD 0 ^^ bit then (crc >>> 1) ^^^ 0x82F63B78 else crc >>> 1

/-- `_mm_crc32_u8` to `_mm_crc32_u64`, for a number of `bits`. -/
def mmCrc32 (bits : Nat) (crc : ULong) (data : Nat) : ULong :=
  (List.range bits).foldl (fun crc i => crc32Bit crc (data.testBit i)) crc

structure CrcState where
  crc : ULong
  buffer : List UInt8

/-- A pass of one of the loops, for the data of `n` bytes at `Buffer`. -/
def CrcState.block (n : Nat) (s : CrcState) : CrcState where
  crc := mmCrc32 (8 * n) s.crc (leDecode (s.buffer.take n))
  buffer := leEncode n (leDecode (s.buffer.take n) + 1) ++ s.buffer.drop n

/-- `PhCrc32C`, with what it leaves in the buffer. -/
def phCrc32C (crc : ULong) (buffer : List UInt8) : ULong × List UInt8 :=
  let length := buffer.length
  let u64Blocks := length / 8
  let u64Remaining := length % 8
  let u32Blocks := u64Remaining / 4
  let u32Remaining := u64Remaining % 4
  let u16Blocks := u32Remaining / 2
  let u8Blocks := u32Remaining % 1
  let s : CrcState := ⟨crc ^^^ 0xffffffff, buffer⟩
  let s := (CrcState.block 1)^[u8Blocks] s
  let s := (CrcState.block 2)^[u16Blocks] s
  let s := (CrcState.block 4)^[u32Blocks] s
  let s := (CrcState.block 8)^[u64Blocks] s
  (s.crc ^^^ 0xffffffff, s.buffer)

end SystemInformer.PhLib
