import SystemInformer.Base.Words

/-!
# The time and the date in a buffer (`util.c`)

`PhFormatDateTimeToBuffer` asks the system for the lengths of the time and of the date in the
user's language, each with its terminator, and then has both put into the buffer of the caller,
with a space over the terminator of the time. The lengths are `LONG`s and are added as such; their
sum times the size of a character is what is compared with the length of the buffer, in bytes, and
what the terminator is stored at, in characters.

The result tells what was stored, by the index of the character, in order.
-/

namespace SystemInformer.PhLib

/-- What `GetTimeFormatEx` or `GetDateFormatEx` produces: not empty, and of a length with the
terminator that is a `LONG`. -/
structure LocaleText where
  chars : List WChar
  ne_nil : chars ≠ []
  length_lt : chars.length + 1 < 2 ^ 31

/-- The length that the system gives. -/
def LocaleText.size (text : LocaleText) : BitVec 32 := BitVec.ofNat 32 (text.chars.length + 1)

structure FormattedDateTime where
  result : Bool
  stores : List (Nat × WChar)
  returnLength : ULongPtr

def storesFrom : Nat → List WChar → List (Nat × WChar)
  | _, [] => []
  | index, c :: chars => (index, c) :: storesFrom (index + 1) chars

def phFormatDateTimeToBuffer (time date : LocaleText) (bufferLength : ULongPtr) :
    FormattedDateTime :=
  let timeBufferSize := time.size
  let dateBufferSize := date.size
  let returnLength : ULongPtr := (timeBufferSize + 1 + dateBufferSize).signExtend 64 * 2
  if bufferLength ≤ returnLength then ⟨false, [], returnLength⟩
  else
    ⟨true,
      storesFrom 0 (time.chars ++ [0]) ++ [((timeBufferSize - 1).toNat, 0x20)] ++
        storesFrom timeBufferSize.toNat (date.chars ++ [0]) ++ [(returnLength.toNat, 0)],
      returnLength - 2⟩

def storeAll (stores : List (Nat × WChar)) (buffer : Nat → WChar) : Nat → WChar :=
  stores.foldl (fun buffer store => Function.update buffer store.1 store.2) buffer

end SystemInformer.PhLib
