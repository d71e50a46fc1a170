import SystemInformer.Base.Nt
import SystemInformer.Base.Words
import SystemInformer.Lib.Reading

/-!
# Arguments of service calls (`phsvc/svcapi.c`, `phsvc/clapi.c`)

A client puts strings into a section that it shares with the service, and sends their
offsets and lengths. `PhSvcpCreateString` is the half of the client, the capture functions
are the half of the service. Each has its own mapping of the section; an offset of zero
stands for a string that is absent.

The service keeps a ledger of the objects it took: strings and buffers that it created and
references to the shared empty string. A captured string or buffer is a copy.
-/

namespace SystemInformer.PhSvc

open Bytes PhLib

/-- `PH_RELATIVE_STRINGREF`; the length is in bytes. -/
structure RelativeStringRef where
  length : UInt32
  offset : UInt32
  deriving DecidableEq

/-- `ClientViewBase`, `ClientViewLimit` and the memory of the service. -/
structure ClientView where
  base : Nat
  limit : Nat
  mem : Mem
  base_lt : base < 2 ^ 64
  limit_lt : limit < 2 ^ 64

/-! ## Objects of the service -/

inductive SvcObject where
  | emptyString
  | string (number : Nat)
  | buffer (number : Nat)
  deriving DecidableEq

/-- What was taken and what was given back, in order; objects are numbered as they are
created. -/
structure SvcHeap where
  created : Nat
  acquired : List SvcObject
  released : List SvcObject

def SvcHeap.create (heap : SvcHeap) (object : Nat → SvcObject) : SvcHeap :=
  ⟨heap.created + 1, heap.acquired ++ [object heap.created], heap.released⟩

/-- `PhFree` and `PhDereferenceObject`. -/
def SvcHeap.release (heap : SvcHeap) (object : SvcObject) : SvcHeap :=
  { heap with released := heap.released ++ [object] }

def SvcHeap.referenceEmptyString (heap : SvcHeap) : SvcHeap :=
  { heap with acquired := heap.acquired ++ [.emptyString] }

/-- A status, the out parameter that a success sets (`none` is null), and what was read of
the view and of the captured copy. -/
structure CaptureRun (α : Type) where
  status : NtStatus
  captured : Option α
  heap : SvcHeap
  viewLog : ReadLog
  copyLog : ReadLog

/-- A capture that stops with a status and took nothing. -/
def CaptureRun.fail {α : Type} (status : NtStatus) (heap : SvcHeap) : CaptureRun α :=
  ⟨status, none, heap, [], []⟩

/-- A reference with an offset of zero: null is captured if the caller allows it. -/
def CaptureRun.absent {α : Type} (allowNull : Bool) (heap : SvcHeap) : CaptureRun α :=
  .fail (if allowNull then statusSuccess else statusAccessViolation) heap

/-! ## The capture functions -/

/-- Zero is the null pointer. -/
def phSvcValidateString (view : ClientView) (string : RelativeStringRef) (alignment : Nat) : Nat :=
  let address := (view.base + string.offset.toNat) % 2 ^ 64
  let stop := (address + string.length.toNat) % 2 ^ 64
  if stop < address ∨ address < view.base ∨ stop > view.limit then 0
  else if address &&& (alignment - 1) ≠ 0 then 0
  else address

def phSvcProbeBuffer (view : ClientView) (string : RelativeStringRef) (alignment : Nat)
    (allowNull : Bool) (heap : SvcHeap) : CaptureRun Nat :=
  if string.offset ≠ 0 then
    let address := phSvcValidateString view string alignment
    if address = 0 then .fail statusAccessViolation heap
    else ⟨statusSuccess, some address, heap, [], []⟩
  else .absent allowNull heap

structure CapturedBuffer where
  object : SvcObject
  bytes : List UInt8

/-- `allocates` says whether `PhAllocateSafe` succeeds. -/
def phSvcCaptureBuffer (view : ClientView) (string : RelativeStringRef) (allowNull allocates : Bool)
    (heap : SvcHeap) : CaptureRun CapturedBuffer :=
  if string.offset ≠ 0 then
    let address := phSvcValidateString view string 1
    if address = 0 then .fail statusAccessViolation heap
    else if allocates = false then .fail statusNoMemory heap
    else
      ⟨statusSuccess, some ⟨.buffer heap.created, load view.mem address string.length.toNat⟩,
        heap.create .buffer, [(address, string.length.toNat)], []⟩
  else .absent allowNull heap

def decodeChars : List UInt8 → List WChar
  | low :: high :: rest => UInt16.ofNat (low.toNat + 256 * high.toNat) :: decodeChars rest
  | _ => []

structure CapturedString where
  object : SvcObject
  chars : List WChar

def phSvcCaptureString (view : ClientView) (string : RelativeStringRef) (allowNull : Bool)
    (heap : SvcHeap) : CaptureRun CapturedString :=
  if string.length &&& 1 ≠ 0 then .fail statusInvalidBufferSize heap
  else if string.length > 0xfffe then .fail statusInvalidBufferSize heap
  else if string.offset ≠ 0 then
    let address := phSvcValidateString view string 2
    if address = 0 then .fail statusAccessViolation heap
    else if string.length ≠ 0 then
      let length := string.length.toNat
      ⟨statusSuccess, some ⟨.string heap.created, decodeChars (load view.mem address length)⟩,
        heap.create .string, [(address, length)], []⟩
    else ⟨statusSuccess, some ⟨.emptyString, []⟩, heap.referenceEmptyString, [], []⟩
  else .absent allowNull heap

def phLengthRequiredSid (subAuthorityCount : Nat) : Nat := 8 + 4 * subAuthorityCount

/-- The tests of `PhSvcCaptureSid` on a captured buffer, with what they read of it: the count
of subauthorities stands at 1, the revision at 0. -/
def checkSid (length : Nat) (bytes : List UInt8) : Bool × ReadLog :=
  let count := (bytes.getD 1 0).toNat
  if length < 2 then (false, [])
  else if length < phLengthRequiredSid count then (false, [(1, 1)])
  else if bytes.getD 0 0 ≠ 1 then (false, [(1, 1), (0, 1)])
  else (decide (count ≤ 15), [(1, 1), (0, 1), (1, 1)])

def phSvcCaptureSid (view : ClientView) (string : RelativeStringRef) (allowNull allocates : Bool)
    (heap : SvcHeap) : CaptureRun CapturedBuffer :=
  let run := phSvcCaptureBuffer view string allowNull allocates heap
  if ntSuccess run.status = false then run
  else match run.captured with
    | none => run
    | some buffer =>
        let (valid, log) := checkSid string.length.toNat buffer.bytes
        if valid then { run with copyLog := log }
        else ⟨statusInvalidSid, none, run.heap.release buffer.object, run.viewLog, log⟩

/-! ## The parameters of a run-as call -/

/-- The strings of the call, captured one after the other into a structure that was zeroed
before. -/
def captureStrings (view : ClientView) (heap : SvcHeap) :
    List RelativeStringRef → NtStatus × List (Option CapturedString) × SvcHeap
  | [] => (statusSuccess, [], heap)
  | string :: rest =>
      let run := phSvcCaptureString view string true heap
      if ntSuccess run.status = false then
        (run.status, none :: rest.map fun _ => none, run.heap)
      else
        let (status, captured, heap) := captureStrings view run.heap rest
        (status, run.captured :: captured, heap)

/-- The strings of a run-as call, in the order in which they are captured. -/
structure RunAsStrings (α : Type) where
  userName : α
  password : α
  currentDirectory : α
  commandLine : α
  fileName : α
  desktopName : α
  serviceName : α

def RunAsStrings.toList {α : Type} (s : RunAsStrings α) : List α :=
  [s.userName, s.password, s.currentDirectory, s.commandLine, s.fileName, s.desktopName,
    s.serviceName]

def phSvcpCaptureRunAsServiceParameters (view : ClientView)
    (payload : RunAsStrings RelativeStringRef) (heap : SvcHeap) :
    NtStatus × List (Option CapturedString) × SvcHeap :=
  captureStrings view heap payload.toList

def phSvcpReleaseRunAsServiceParameters (captured : List (Option CapturedString))
    (heap : SvcHeap) : SvcHeap :=
  captured.foldl (fun heap string =>
    match string with
    | none => heap
    | some string => heap.release string.object) heap

/-- Null is the missing string; the list has the order of `RunAsStrings`. -/
def phSvcpValidateRunAsServiceParameters (processId : Nat)
    (captured : List (Option CapturedString)) : NtStatus :=
  let null i := (captured.getD i none).isNone
  if (null 0 ∨ null 1) ∧ processId = 0 then statusInvalidParameterMix
  else if null 4 ∧ null 3 then statusInvalidParameterMix
  else if null 6 then statusInvalidParameter
  else statusSuccess

/-- `PhSvcApiExecuteRunAsCommand`, and `PhSvcApiInvokeRunAsService`, which calls another
function; `execute` is what that answers. -/
def phSvcApiExecuteRunAsCommand (view : ClientView) (processId : Nat)
    (payload : RunAsStrings RelativeStringRef) (execute : NtStatus) (heap : SvcHeap) :
    NtStatus × SvcHeap :=
  let (status, captured, heap) := phSvcpCaptureRunAsServiceParameters view payload heap
  let status :=
    if ntSuccess status then
      let status := phSvcpValidateRunAsServiceParameters processId captured
      if ntSuccess status then execute else status
    else status
  (status, phSvcpReleaseRunAsServiceParameters captured heap)

/-! ## The client -/

/-- The client's mapping of the section, where the port heap is. `PhSvcConnectToServer` is
asked for a section of 8 MB, and an offset has 32 bits. -/
structure PortHeap where
  base : Nat
  size : Nat
  fits : base + size ≤ 2 ^ 64
  size_le : size ≤ ulongRange

def sizeMax : Nat := 2 ^ 64 - 1

def phCountStringZ (string : List WChar) : Nat := (string.takeWhile (· ≠ 0)).length

def encodeChars (string : List WChar) : List UInt8 := string.flatMap fun c => leEncode 2 c.toNat

/-- `memory` is what `RtlAllocateHeap` answers; the offset goes through `PtrToUlong`. -/
def phSvcpAllocateHeap (heap : PortHeap) (memory : Option Nat) : Option (Nat × UInt32) :=
  memory.map fun address => (address, UInt32.ofNat (address - heap.base))

/-- `section_` has the bytes of the section by their offsets. The block is zeroed when it is
allocated, and `String` is copied into it. -/
def phSvcpCreateString (heap : PortHeap) (section_ : Mem) (string : Option (List WChar))
    (length : Nat) (memory : Option Nat) : Option (RelativeStringRef × Mem) :=
  let length := if length ≠ sizeMax then length else phCountStringZ (string.getD []) * 2
  if length > 2 ^ 32 - 1 then none
  else match phSvcpAllocateHeap heap memory with
    | none => none
    | some (address, offset) =>
        let zeroed := Store.apply ⟨address - heap.base, List.replicate length 0⟩ section_
        let copied := match string with
          | none => zeroed
          | some string =>
              Store.apply ⟨address - heap.base, (encodeChars string).take length⟩ zeroed
        some (⟨UInt32.ofNat length, offset⟩, copied)

/-- An optional string that a call sends: what is passed to `PhSvcpCreateString`, and the
block it gets. -/
structure StringArgument where
  string : Option (List WChar)
  length : Nat
  memory : Option Nat

/-- The strings of a call. The message is zeroed before, which is how an absent string is
sent; a string that gets no block ends the call. -/
def createStrings (heap : PortHeap) :
    Mem → List StringArgument → Option (List RelativeStringRef × Mem)
  | section_, [] => some ([], section_)
  | section_, argument :: rest =>
      match argument.string with
      | none => (createStrings heap section_ rest).map fun r => (⟨0, 0⟩ :: r.1, r.2)
      | some string =>
          match phSvcpCreateString heap section_ (some string) argument.length argument.memory with
          | none => none
          | some (ref, section_) =>
              (createStrings heap section_ rest).map fun r => (ref :: r.1, r.2)

end SystemInformer.PhSvc
