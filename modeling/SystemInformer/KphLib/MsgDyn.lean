import SystemInformer.Base.Nt
import SystemInformer.Lib.Bytes

/-!
# Kernel messages and their dynamic data (`kphmsg.c`, `kphmsgdyn.c`)

A `KPH_MESSAGE` is 4096 bytes. The model places one at address 0 of a byte
memory, so `Add2Ptr(Message, n)` is the address `n` and everything from 4096
on is whatever happens to follow the message; a copy that runs past the end
really does write there. The 64-bit layout is the one the header asserts:

* bytes 0..15, the header: `Version`, `Size`, `MessageId`, `TimeStamp`;
* bytes 256..355, `_Dyn.Count` and the eight 12-byte table entries;
* bytes 356..4095, `_Dyn.Buffer`.

Each operation answers a status and the log of its stores. Nothing checks
`_Dyn.Count` before the table is scanned, so the scan takes its bound from
the byte as it stands and the entries beyond the eighth are read out of the
buffer that follows the table.
-/

namespace SystemInformer.KphLib

open Bytes

/-! ## Layout -/

/-- `sizeof(KPH_MESSAGE)`. -/
def sizeofMessage : Nat := 0x1000

/-- `KPH_MESSAGE_MIN_SIZE`. -/
def messageMinSize : Nat := 356

/-- `ARRAYSIZE(Message->_Dyn.Entries)`. -/
def dynEntriesMax : Nat := 8

/-- `KPH_MESSAGE_VERSION`. -/
def messageVersion : Nat := 4

/-- `InvalidKphMsg`, `MaxKphMsg` and `KphMsgUnhandled` of `KPH_MESSAGE_ID`. -/
def invalidKphMsg : Nat := 0
def maxKphMsg : Nat := 0x4000009a
def kphMsgUnhandled : Nat := 0xffffffff

/-- The bounds of `KPH_MESSAGE_FIELD_ID`. -/
def invalidKphMsgField : Nat := 0
def maxKphMsgField : Nat := 22

/-- `KPH_MESSAGE_TYPE_ID`. -/
def invalidKphMsgType : Nat := 0
def kphMsgTypeUnicodeString : Nat := 1
def kphMsgTypeAnsiString : Nat := 2
def kphMsgTypeStackTrace : Nat := 3
def kphMsgTypeSizedBuffer : Nat := 4
def maxKphMsgType : Nat := 5

/-- `sizeof(PVOID)` in a 64-bit build. -/
def sizeofPvoid : Nat := 8

def headerVersion (m : Mem) : Nat := field m 0 2
def headerSize (m : Mem) : Nat := field m 2 2
def headerMessageId (m : Mem) : Nat := field m 4 4

/-- `_Dyn.Count`, a `UCHAR`. -/
def dynCount (m : Mem) : Nat := field m 256 1

/-- The address of `_Dyn.Entries[i]`. -/
def entryAddr (i : Nat) : Nat := 260 + 12 * i

def entryFieldId (m : Mem) (i : Nat) : Nat := field m (entryAddr i) 4
def entryTypeId (m : Mem) (i : Nat) : Nat := field m (entryAddr i + 4) 4
def entryOffset (m : Mem) (i : Nat) : Nat := field m (entryAddr i + 8) 2
def entryLength (m : Mem) (i : Nat) : Nat := field m (entryAddr i + 10) 2

/-! ## `kphmsg.c` -/

/-- The stores of `KphMsgInit`; `timeStamp` is what
`KphMsgQuerySystemTime` answers. -/
def kphMsgInit (messageId : UInt32) (timeStamp : UInt64) : List Store :=
  [⟨0, List.replicate messageMinSize 0⟩,
   Store.field 0 2 messageVersion,
   Store.field 2 2 messageMinSize,
   Store.field 4 4 messageId.toNat,
   Store.field 8 8 timeStamp.toNat]

def kphMsgValidate (m : Mem) : NtStatus :=
  if headerVersion m ≠ messageVersion then
    statusRevisionMismatch
  else if headerSize m < messageMinSize ∨ headerSize m > sizeofMessage then
    statusInvalidMessage
  else if headerMessageId m ≠ kphMsgUnhandled ∧
      (headerMessageId m ≤ invalidKphMsg ∨ headerMessageId m ≥ maxKphMsg) then
    statusInvalidMessage
  else
    statusSuccess

/-! ## The table -/

/-- The scan of `KphpMsgDynFindEntry` from index `i` with `n` entries left:
the entry it stops at, and every index whose `FieldId` it reads. -/
def kphpMsgDynFindLoop (m : Mem) (fieldId : UInt32) (i : Nat) :
    Nat → Option Nat × List Nat
  | 0 => (none, [])
  | n + 1 =>
      if entryFieldId m i = fieldId.toNat then
        (some i, [i])
      else
        let rest := kphpMsgDynFindLoop m fieldId (i + 1) n
        (rest.1, i :: rest.2)

def kphpMsgDynFindEntry (m : Mem) (fieldId : UInt32) : Option Nat × List Nat :=
  kphpMsgDynFindLoop m fieldId 0 (dynCount m)

/-- What `KphpMsgDynClaimEntry` answers: a status, the claimed index and the
stores it made. -/
structure DynClaim where
  status : NtStatus
  entry : Option Nat
  log : List Store
  deriving DecidableEq

/-- The stores of a claim that goes through, in the source's order: the count,
the entry's four fields, the header's size. -/
def dynClaimLog (m : Mem) (fieldId : UInt32) (typeId length : Nat) : List Store :=
  let index := dynCount m
  [Store.field 256 1 (index + 1),
   Store.field (entryAddr index) 4 fieldId.toNat,
   Store.field (entryAddr index + 4) 4 typeId,
   Store.field (entryAddr index + 8) 2 (headerSize m),
   Store.field (entryAddr index + 10) 2 length,
   Store.field 2 2 (headerSize m + length)]

/-- `length` is a `USHORT` argument; callers pass it already truncated. -/
def kphpMsgDynClaimEntry (m : Mem) (fieldId : UInt32) (typeId length : Nat) :
    DynClaim :=
  if fieldId.toNat ≤ invalidKphMsgField ∨ fieldId.toNat ≥ maxKphMsgField then
    ⟨statusInvalidParameter2, none, []⟩
  else if typeId ≤ invalidKphMsgType ∨ typeId ≥ maxKphMsgType then
    ⟨statusInvalidParameter3, none, []⟩
  else if ntSuccess (kphMsgValidate m) = false then
    ⟨kphMsgValidate m, none, []⟩
  else if dynCount m ≥ dynEntriesMax then
    ⟨statusInsufficientResources, none, []⟩
  else if (kphpMsgDynFindEntry m fieldId).1.isSome then
    ⟨statusAlreadyCommitted, none, []⟩
  else
    match rtlUShortAdd (headerSize m) length with
    | .error status => ⟨status, none, []⟩
    | .ok offset =>
        if offset > sizeofMessage then
          ⟨statusInsufficientResources, none, []⟩
        else
          ⟨statusSuccess, some (dynCount m), dynClaimLog m fieldId typeId length⟩

/-- What a lookup answers, with the table indices the scan read. -/
structure DynLookup where
  status : NtStatus
  entry : Option Nat
  inspected : List Nat
  deriving DecidableEq

def kphpMsgDynLookupEntry (m : Mem) (fieldId : UInt32) (typeId : Nat) :
    DynLookup :=
  if ntSuccess (kphMsgValidate m) = false then
    ⟨kphMsgValidate m, none, []⟩
  else
    let found := kphpMsgDynFindEntry m fieldId
    match found.1 with
    | none => ⟨statusNotFound, none, found.2⟩
    | some i =>
        if entryTypeId m i ≠ typeId then
          ⟨statusContextMismatch, none, found.2⟩
        else if entryOffset m i ≥ headerSize m then
          ⟨statusHeapCorruption, none, found.2⟩
        else
          ⟨statusSuccess, some i, found.2⟩

/-! ## Adding -/

/-- A `UNICODE_STRING`, `ANSI_STRING` or `KPHM_SIZED_BUFFER` argument: the
bytes, as many as its `USHORT` length says. -/
structure CountedBytes where
  bytes : List UInt8
  isUShort : bytes.length < 2 ^ 16

/-- A `KPHM_STACK_TRACE` argument; `Count` is a `USHORT`. -/
structure KphmStackTrace where
  frames : List UInt64
  isUShort : frames.length < 2 ^ 16

/-- The memory `Frames` points at. -/
def KphmStackTrace.bytes (t : KphmStackTrace) : List UInt8 :=
  t.frames.flatMap fun frame => leEncode sizeofPvoid frame.toNat

/-- The body the four `KphMsgDynAdd*` functions share: claim `length` bytes,
then copy `data` to the entry's offset. The copy takes its length from the
caller's argument, not from the entry. -/
def kphpMsgDynAdd (m : Mem) (fieldId : UInt32) (typeId length : Nat)
    (data : List UInt8) : NtStatus × List Store :=
  let claim := kphpMsgDynClaimEntry m fieldId typeId length
  match claim.entry with
  | none => (claim.status, claim.log)
  | some entry =>
      (statusSuccess,
        claim.log ++ [⟨entryOffset (applyLog m claim.log) entry, data⟩])

def kphMsgDynAddUnicodeString (m : Mem) (fieldId : UInt32)
    (string : CountedBytes) : NtStatus × List Store :=
  kphpMsgDynAdd m fieldId kphMsgTypeUnicodeString string.bytes.length string.bytes

def kphMsgDynAddAnsiString (m : Mem) (fieldId : UInt32)
    (string : CountedBytes) : NtStatus × List Store :=
  kphpMsgDynAdd m fieldId kphMsgTypeAnsiString string.bytes.length string.bytes

/-- `StackTrace->Count * sizeof(PVOID)` is computed in full width; passing it
as the `USHORT` length truncates it, the copy does not. -/
def kphMsgDynAddStackTrace (m : Mem) (fieldId : UInt32)
    (stackTrace : KphmStackTrace) : NtStatus × List Store :=
  kphpMsgDynAdd m fieldId kphMsgTypeStackTrace
    (stackTrace.frames.length * sizeofPvoid % ushortRange) stackTrace.bytes

def kphMsgDynAddSizedBuffer (m : Mem) (fieldId : UInt32)
    (sizedBuffer : CountedBytes) : NtStatus × List Store :=
  kphpMsgDynAdd m fieldId kphMsgTypeSizedBuffer sizedBuffer.bytes.length
    sizedBuffer.bytes

/-- The argument of an add, one constructor for each of the four functions. -/
inductive DynData where
  | unicodeString (string : CountedBytes)
  | ansiString (string : CountedBytes)
  | stackTrace (trace : KphmStackTrace)
  | sizedBuffer (buffer : CountedBytes)

def DynData.bytes : DynData → List UInt8
  | .unicodeString s => s.bytes
  | .ansiString s => s.bytes
  | .stackTrace t => t.bytes
  | .sizedBuffer b => b.bytes

/-- The `USHORT` length an add claims. -/
def DynData.claimed : DynData → Nat
  | .unicodeString s => s.bytes.length
  | .ansiString s => s.bytes.length
  | .stackTrace t => t.frames.length * sizeofPvoid % ushortRange
  | .sizedBuffer b => b.bytes.length

/-- `KphMsgDynAdd*`, the function the argument belongs to. -/
def kphMsgDynAdd (m : Mem) (fieldId : UInt32) : DynData → NtStatus × List Store
  | .unicodeString s => kphMsgDynAddUnicodeString m fieldId s
  | .ansiString s => kphMsgDynAddAnsiString m fieldId s
  | .stackTrace t => kphMsgDynAddStackTrace m fieldId t
  | .sizedBuffer b => kphMsgDynAddSizedBuffer m fieldId b

/-! ## Clearing -/

/-- `sizeof(KPH_MESSAGE_DYNAMIC_TABLE_ENTRY)`. -/
def sizeofDynEntry : Nat := 12

/-- The stores of `KphMsgDynClearLast`; the count is a `UCHAR`, the size a
`USHORT`. -/
def kphMsgDynClearLast (m : Mem) : List Store :=
  if dynCount m ≠ 0 then []
  else
    let count := (dynCount m + 255) % 2 ^ 8
    [Store.field 256 1 count,
     Store.field 2 2 ((headerSize m + (2 ^ 16 - entryLength m count)) % 2 ^ 16),
     ⟨entryAddr count, List.replicate sizeofDynEntry 0⟩]

/-! ## Getting -/

/-- What a `KphMsgDynGet*` call leaves in its out parameter, with the table
entry it answered from and the indices it inspected. -/
structure DynGet (α : Type) where
  status : NtStatus
  value : α
  entry : Option Nat
  inspected : List Nat

/-- The body the four `KphMsgDynGet*` functions share: look the field up and
fill the out parameter from the entry, or clear it. -/
def kphpMsgDynGet {α : Type} (m : Mem) (fieldId : UInt32) (typeId : Nat)
    (fill : Nat → α) (clear : α) : DynGet α :=
  let found := kphpMsgDynLookupEntry m fieldId typeId
  match found.entry with
  | none => ⟨found.status, clear, none, found.inspected⟩
  | some entry => ⟨statusSuccess, fill entry, some entry, found.inspected⟩

/-- An out `UNICODE_STRING` or `ANSI_STRING`; `buffer` is an offset into the
message, or `none` for a null pointer. -/
structure KphmString where
  length : Nat
  maximumLength : Nat
  buffer : Option Nat
  deriving DecidableEq

/-- An out `KPHM_STACK_TRACE`. -/
structure KphmFrames where
  count : Nat
  frames : Option Nat
  deriving DecidableEq

/-- An out `KPHM_SIZED_BUFFER`. -/
structure KphmBuffer where
  size : Nat
  buffer : Option Nat
  deriving DecidableEq

def kphMsgDynGetUnicodeString (m : Mem) (fieldId : UInt32) : DynGet KphmString :=
  kphpMsgDynGet m fieldId kphMsgTypeUnicodeString
    (fun i => ⟨entryLength m i, entryLength m i, some (entryOffset m i)⟩)
    ⟨0, 0, none⟩

def kphMsgDynGetAnsiString (m : Mem) (fieldId : UInt32) : DynGet KphmString :=
  kphpMsgDynGet m fieldId kphMsgTypeAnsiString
    (fun i => ⟨entryLength m i, entryLength m i, some (entryOffset m i)⟩)
    ⟨0, 0, none⟩

def kphMsgDynGetStackTrace (m : Mem) (fieldId : UInt32) : DynGet KphmFrames :=
  kphpMsgDynGet m fieldId kphMsgTypeStackTrace
    (fun i => ⟨entryLength m i / sizeofPvoid, some (entryOffset m i)⟩)
    ⟨0, none⟩

def kphMsgDynGetSizedBuffer (m : Mem) (fieldId : UInt32) : DynGet KphmBuffer :=
  kphpMsgDynGet m fieldId kphMsgTypeSizedBuffer
    (fun i => ⟨entryLength m i, some (entryOffset m i)⟩)
    ⟨0, none⟩

inductive DynKind where
  | unicodeString
  | ansiString
  | stackTrace
  | sizedBuffer
  deriving DecidableEq

def DynKind.typeId : DynKind → Nat
  | .unicodeString => kphMsgTypeUnicodeString
  | .ansiString => kphMsgTypeAnsiString
  | .stackTrace => kphMsgTypeStackTrace
  | .sizedBuffer => kphMsgTypeSizedBuffer

def DynData.kind : DynData → DynKind
  | .unicodeString _ => .unicodeString
  | .ansiString _ => .ansiString
  | .stackTrace _ => .stackTrace
  | .sizedBuffer _ => .sizedBuffer

/-- The bytes behind an out pointer; a null pointer has none. -/
def outBytes (m : Mem) (buffer : Option Nat) (length : Nat) : List UInt8 :=
  match buffer with
  | none => []
  | some offset => load m offset length

/-- `KphMsgDynGet*` for a data type, its out parameter read as the bytes it
designates. -/
def kphMsgDynGet (m : Mem) (fieldId : UInt32) : DynKind → DynGet (List UInt8)
  | .unicodeString =>
      let r := kphMsgDynGetUnicodeString m fieldId
      ⟨r.status, outBytes m r.value.buffer r.value.length, r.entry, r.inspected⟩
  | .ansiString =>
      let r := kphMsgDynGetAnsiString m fieldId
      ⟨r.status, outBytes m r.value.buffer r.value.length, r.entry, r.inspected⟩
  | .stackTrace =>
      let r := kphMsgDynGetStackTrace m fieldId
      ⟨r.status, outBytes m r.value.frames (r.value.count * sizeofPvoid), r.entry,
        r.inspected⟩
  | .sizedBuffer =>
      let r := kphMsgDynGetSizedBuffer m fieldId
      ⟨r.status, outBytes m r.value.buffer r.value.size, r.entry, r.inspected⟩

end SystemInformer.KphLib
