import SystemInformer.Lib.EndAround
import SystemInformer.PhLib.MappedImage

/-!
# The checksum of a mapped image (`mapimg.c`)

`PhCheckSumMappedImage` adds up the words of the view with an end-around carry, takes the two words
of the `CheckSum` field away again with a borrow, and adds the size of the view. The number of words
is computed as a `ULONG`.
-/

namespace SystemInformer.PhLib

open Bytes

/-- The loop of `PhCheckSum`. -/
def checkSumLoop (m : Mem) : Nat → Nat → Nat → Nat
  | 0, sum, _ => sum
  | count + 1, sum, buffer =>
      let sum := (sum + field m buffer 2) % 2 ^ 32
      checkSumLoop m count (sum / 2 ^ 16 + sum % 2 ^ 16) (buffer + 2)

def phCheckSum (m : Mem) (sum buffer count : Nat) : Nat :=
  let sum := checkSumLoop m count sum buffer
  (sum / 2 ^ 16 + sum) % 2 ^ 32 % 2 ^ 16

/-- `partialSum -= partialSum < adjust; partialSum -= adjust`. -/
def subtractWithCarry (partialSum adjust : Nat) : Nat :=
  let partialSum := (partialSum + (2 ^ 16 - if partialSum < adjust then 1 else 0)) % 2 ^ 16
  (partialSum + (2 ^ 16 - adjust)) % 2 ^ 16

/-- The offset of `OptionalHeader.CheckSum` in the NT headers. -/
def offsetCheckSum : Nat := offsetOptionalHeader + 64

/-- The number of words that are summed: `(ULONG)(ViewSize + 1) / 2`. -/
def checkSumCount (image : PhMappedImage) : Nat := (image.view.size + 1) % 2 ^ 32 / 2

def phCheckSumMappedImage (image : PhMappedImage) (m : Mem) : Nat :=
  let partialSum := phCheckSum m 0 image.view.base (checkSumCount image)
  let adjust := image.ntHeaders + offsetCheckSum
  let partialSum := subtractWithCarry partialSum (field m adjust 2)
  let partialSum := subtractWithCarry partialSum (field m (adjust + 2) 2)
  (partialSum + image.view.size % 2 ^ 32) % 2 ^ 32

/-- The memory with `checkSum` in the `CheckSum` field. -/
def storeCheckSum (image : PhMappedImage) (checkSum : Nat) (m : Mem) : Mem :=
  (Store.field (image.ntHeaders + offsetCheckSum) 4 checkSum).apply m

def imageWord (image : PhMappedImage) (m : Mem) (i : Nat) : Nat :=
  field m (image.view.base + 2 * i) 2

/-- Whatever is stored in the `CheckSum` field, the checksum is the one of before, and it is the
size of the view and the sum of all words with an end-around carry, the field taken as zero. -/
structure CheckSumAgrees (m : Mem) (image : PhMappedImage) : Prop where
  unchanged : ∀ checkSum < 2 ^ 32,
    phCheckSumMappedImage image (storeCheckSum image checkSum m) = phCheckSumMappedImage image m
  formula : ∀ checkSum < 2 ^ 32,
    phCheckSumMappedImage image (storeCheckSum image checkSum m) =
      (image.view.size + EndAround.sum (2 ^ 16)
        ((List.range (image.view.size / 2)).map
          (imageWord image (storeCheckSum image 0 m)))) % 2 ^ 32

/-- The index of the first word of the `CheckSum` field. -/
def checkSumIndex (image : PhMappedImage) : Nat :=
  (image.ntHeaders + offsetCheckSum - image.view.base) / 2

/-- The sum of `count` words from an index on, those of the `CheckSum` field taken as zero. -/
def wordsTotal (image : PhMappedImage) (m : Mem) (first count : Nat) : Nat :=
  ((List.range count).map fun i => imageWord image (storeCheckSum image 0 m) (first + i)).sum

/-- The words that are counted contain the field and are no multiple of `65535` without it; those
that the count leaves out are a multiple. -/
structure CheckSumRegular (m : Mem) (image : PhMappedImage) : Prop where
  counted : checkSumIndex image + 2 ≤ checkSumCount image
  not_multiple : ¬ 65535 ∣ wordsTotal image m 0 (checkSumCount image)
  left_out : 65535 ∣ wordsTotal image m (checkSumCount image)
    (image.view.size / 2 - checkSumCount image)

end SystemInformer.PhLib
