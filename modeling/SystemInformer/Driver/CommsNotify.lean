import SystemInformer.Driver.Probes
import SystemInformer.Driver.VirtualMemory
import SystemInformer.KphLib.MsgDyn

/-!
# Requests of a client (`comms.c`, `comms_handlers.c`)

`KphpCommsMessageNotifyCallback` captures a client's message, checks it, and hands it to
the handler of its id. The client's memory may change while it is read, so the model
gives it one content for every byte read: byte number `t` of a call comes from
`client t`. A copy may raise after any number of bytes.

The table of handlers is here with the state each handler requires. What a handler does
is a parameter: any function of the message, which it may rewrite.
-/

namespace SystemInformer.Driver

open Bytes KphLib

/-! ## Process states -/

/-- `KPH_PROCESS_STATE`, a mask. -/
abbrev ProcessState := UInt32

def kphProcessSecurelyCreated : ProcessState := 0x00000001
def kphProcessVerifiedProcess : ProcessState := 0x00000002
def kphProcessProtectedProcess : ProcessState := 0x00000004
def kphProcessNoUntrustedImages : ProcessState := 0x00000008
def kphProcessHasFileObject : ProcessState := 0x00000010
def kphProcessHasSectionObjectPointers : ProcessState := 0x00000020
def kphProcessNoUserWritableReferences : ProcessState := 0x00000040
def kphProcessNoFileTransaction : ProcessState := 0x00000080
def kphProcessNotBeingDebugged : ProcessState := 0x00000100
def kphProcessNoWritableFileObject : ProcessState := 0x00000200

def kphProcessStateLow : ProcessState :=
  kphProcessVerifiedProcess ||| kphProcessHasFileObject |||
    kphProcessHasSectionObjectPointers ||| kphProcessNoUserWritableReferences |||
    kphProcessNoFileTransaction ||| kphProcessNoWritableFileObject

def kphProcessStateMedium : ProcessState :=
  kphProcessStateLow ||| kphProcessProtectedProcess

def kphProcessStateMaximum : ProcessState :=
  kphProcessStateMedium ||| kphProcessSecurelyCreated ||| kphProcessNoUntrustedImages |||
    kphProcessNotBeingDebugged

def hasState (state required : ProcessState) : Bool := state &&& required == required

/-! ## What each request requires -/

/-- `KPH_PROCESS_READ_ACCESS` and the read masks of the other object types. -/
def kphProcessReadAccess : UInt32 := 0x00121410
def kphThreadReadAccess : UInt32 := 0x00120848
def kphTokenReadAccess : UInt32 := 0x00120018
def kphJobReadAccess : UInt32 := 0x00120004
def kphFileReadAccess : UInt32 := 0x00120089

def kphFileReadDisposition : Nat := 1

def kphThreadIoCounters : UInt32 := 12
def kphThreadWSLThreadId : UInt32 := 13

def kphMemoryImageSection : UInt32 := 0
def kphMemoryDataSection : UInt32 := 1

/-- A `KPHM_REQUIRED_STATE` routine. -/
abbrev RequiredState := Mem → ProcessState

def kphpCommsRequireMaximum : RequiredState := fun _ => kphProcessStateMaximum
def kphpCommsRequireMedium : RequiredState := fun _ => kphProcessStateMedium
def kphpCommsRequireLow : RequiredState := fun _ => kphProcessStateLow

/-- The requests that open an object: more than read access takes the maximum state.
`DesiredAccess` stands 32 bytes into each of their messages. -/
def kphpCommsOpenRequires (readAccess : UInt32) : RequiredState := fun m =>
  let desiredAccess := UInt32.ofNat (field m 32 4)
  if desiredAccess &&& readAccess ≠ desiredAccess then kphProcessStateMaximum
  else kphProcessStateMedium

def kphpCommsOpenProcessRequires : RequiredState := kphpCommsOpenRequires kphProcessReadAccess
def kphpCommsOpenProcessTokenRequires : RequiredState := kphpCommsOpenRequires kphTokenReadAccess
def kphpCommsOpenProcessJobRequires : RequiredState := kphpCommsOpenRequires kphJobReadAccess
def kphpCommsOpenThreadRequires : RequiredState := kphpCommsOpenRequires kphThreadReadAccess
def kphpCommsOpenThreadProcessRequires : RequiredState :=
  kphpCommsOpenRequires kphProcessReadAccess

def kphpCommsQueryInformationProcessRequires : RequiredState := fun m =>
  match field m 32 4 with
  -- `KphProcessWSLProcessId`, `StateInformation`, `SequenceNumber` and `StartKey`.
  | 13 | 1 | 14 | 15 => kphProcessStateLow
  -- `KphProcessBasicInformation` and `KphProcessImageSection`.
  | 0 | 16 => kphProcessStateMedium
  | _ => kphProcessStateMaximum

def kphpCommsCreateFileRequires : RequiredState := fun m =>
  let desiredAccess := UInt32.ofNat (field m 32 4)
  if desiredAccess &&& kphFileReadAccess ≠ desiredAccess then kphProcessStateMaximum
  else if field m 72 4 ≠ kphFileReadDisposition then kphProcessStateMaximum
  else kphProcessStateMedium

def kphpCommsQueryInformationThreadRequires : RequiredState := fun m =>
  if UInt32.ofNat (field m 32 4) = kphThreadIoCounters ∨
      UInt32.ofNat (field m 32 4) = kphThreadWSLThreadId then
    kphProcessStateLow
  else
    kphProcessStateMaximum

def kphpCommsQueryVirtualMemoryRequires : RequiredState := fun m =>
  if UInt32.ofNat (field m 40 4) = kphMemoryImageSection ∨
      UInt32.ofNat (field m 40 4) = kphMemoryDataSection then
    kphProcessStateMedium
  else
    kphProcessStateMaximum

/-! ## The table of handlers -/

/-- The part of `KPH_MESSAGE_ID` a client may send. -/
inductive ClientMessageId where
  | invalidKphMsg
  | kphMsgGetInformerSettings
  | kphMsgSetInformerSettings
  | kphMsgOpenProcess
  | kphMsgOpenProcessToken
  | kphMsgOpenProcessJob
  | kphMsgTerminateProcess
  | kphMsgReadVirtualMemory
  | kphMsgOpenThread
  | kphMsgOpenThreadProcess
  | kphMsgCaptureStackBackTraceThread
  | kphMsgEnumerateProcessHandles
  | kphMsgQueryInformationObject
  | kphMsgSetInformationObject
  | kphMsgOpenDriver
  | kphMsgQueryInformationDriver
  | kphMsgQueryInformationProcess
  | kphMsgSetInformationProcess
  | kphMsgSetInformationThread
  | kphMsgSystemControl
  | kphMsgAlpcQueryInformation
  | kphMsgQueryInformationFile
  | kphMsgQueryVolumeInformationFile
  | kphMsgDuplicateObject
  | kphMsgQueryPerformanceCounter
  | kphMsgCreateFile
  | kphMsgQueryInformationThread
  | kphMsgQuerySection
  | kphMsgCompareObjects
  | kphMsgGetMessageTimeouts
  | kphMsgSetMessageTimeouts
  | kphMsgAcquireDriverUnloadProtection
  | kphMsgReleaseDriverUnloadProtection
  | kphMsgGetConnectedClientCount
  | kphMsgActivateDynData
  | kphMsgRequestSessionAccessToken
  | kphMsgAssignProcessSessionToken
  | kphMsgAssignThreadSessionToken
  | kphMsgGetInformerProcessFilter
  | kphMsgSetInformerProcessFilter
  | kphMsgStripProtectedProcessMasks
  | kphMsgQueryVirtualMemory
  | kphMsgQueryHashInformationFile
  | kphMsgOpenDevice
  | kphMsgOpenDeviceDriver
  | kphMsgOpenDeviceBaseDevice
  deriving DecidableEq

def ClientMessageId.value (id : ClientMessageId) : Nat := id.ctorIdx

def maxKphMsgClient : Nat := 46

/-- An entry of the table; without a required state it has no handler either. -/
structure MessageHandler where
  messageId : ClientMessageId
  requiredState : Option RequiredState

def kphCommsMessageHandlers : List MessageHandler :=
  [⟨.invalidKphMsg, none⟩,
   ⟨.kphMsgGetInformerSettings, some kphpCommsRequireLow⟩,
   ⟨.kphMsgSetInformerSettings, some kphpCommsRequireLow⟩,
   ⟨.kphMsgOpenProcess, some kphpCommsOpenProcessRequires⟩,
   ⟨.kphMsgOpenProcessToken, some kphpCommsOpenProcessTokenRequires⟩,
   ⟨.kphMsgOpenProcessJob, some kphpCommsOpenProcessJobRequires⟩,
   ⟨.kphMsgTerminateProcess, some kphpCommsRequireMaximum⟩,
   ⟨.kphMsgReadVirtualMemory, some kphpCommsRequireMaximum⟩,
   ⟨.kphMsgOpenThread, some kphpCommsOpenThreadRequires⟩,
   ⟨.kphMsgOpenThreadProcess, some kphpCommsOpenThreadProcessRequires⟩,
   ⟨.kphMsgCaptureStackBackTraceThread, some kphpCommsRequireMedium⟩,
   ⟨.kphMsgEnumerateProcessHandles, some kphpCommsRequireMedium⟩,
   ⟨.kphMsgQueryInformationObject, some kphpCommsRequireMedium⟩,
   ⟨.kphMsgSetInformationObject, some kphpCommsRequireMaximum⟩,
   ⟨.kphMsgOpenDriver, some kphpCommsRequireMaximum⟩,
   ⟨.kphMsgQueryInformationDriver, some kphpCommsRequireMaximum⟩,
   ⟨.kphMsgQueryInformationProcess, some kphpCommsQueryInformationProcessRequires⟩,
   ⟨.kphMsgSetInformationProcess, some kphpCommsRequireMaximum⟩,
   ⟨.kphMsgSetInformationThread, some kphpCommsRequireMaximum⟩,
   ⟨.kphMsgSystemControl, some kphpCommsRequireMaximum⟩,
   ⟨.kphMsgAlpcQueryInformation, some kphpCommsRequireMedium⟩,
   ⟨.kphMsgQueryInformationFile, some kphpCommsRequireMedium⟩,
   ⟨.kphMsgQueryVolumeInformationFile, some kphpCommsRequireMedium⟩,
   ⟨.kphMsgDuplicateObject, some kphpCommsRequireMaximum⟩,
   ⟨.kphMsgQueryPerformanceCounter, some kphpCommsRequireLow⟩,
   ⟨.kphMsgCreateFile, some kphpCommsCreateFileRequires⟩,
   ⟨.kphMsgQueryInformationThread, some kphpCommsQueryInformationThreadRequires⟩,
   ⟨.kphMsgQuerySection, some kphpCommsRequireMedium⟩,
   ⟨.kphMsgCompareObjects, some kphpCommsRequireMedium⟩,
   ⟨.kphMsgGetMessageTimeouts, some kphpCommsRequireLow⟩,
   ⟨.kphMsgSetMessageTimeouts, some kphpCommsRequireLow⟩,
   ⟨.kphMsgAcquireDriverUnloadProtection, some kphpCommsRequireMaximum⟩,
   ⟨.kphMsgReleaseDriverUnloadProtection, some kphpCommsRequireMaximum⟩,
   ⟨.kphMsgGetConnectedClientCount, some kphpCommsRequireLow⟩,
   ⟨.kphMsgActivateDynData, some kphpCommsRequireLow⟩,
   ⟨.kphMsgRequestSessionAccessToken, some kphpCommsRequireMaximum⟩,
   ⟨.kphMsgAssignProcessSessionToken, some kphpCommsRequireMaximum⟩,
   ⟨.kphMsgAssignThreadSessionToken, some kphpCommsRequireMaximum⟩,
   ⟨.kphMsgGetInformerProcessFilter, some kphpCommsRequireLow⟩,
   ⟨.kphMsgSetInformerProcessFilter, some kphpCommsRequireLow⟩,
   ⟨.kphMsgStripProtectedProcessMasks, some kphpCommsRequireMaximum⟩,
   ⟨.kphMsgQueryVirtualMemory, some kphpCommsQueryVirtualMemoryRequires⟩,
   ⟨.kphMsgQueryHashInformationFile, some kphpCommsRequireMaximum⟩,
   ⟨.kphMsgOpenDevice, some kphpCommsRequireMaximum⟩,
   ⟨.kphMsgOpenDeviceDriver, some kphpCommsRequireMaximum⟩,
   ⟨.kphMsgOpenDeviceBaseDevice, some kphpCommsRequireMaximum⟩]

/-! ## The callback -/

inductive ClientAccess where
  | read (addr len : Nat)
  | write (addr len : Nat)
  deriving DecidableEq

def ClientAccess.covers : ClientAccess → Nat → Prop
  | .read addr len, a => addr ≤ a ∧ a < addr + len
  | .write addr len, a => addr ≤ a ∧ a < addr + len

/-- One call of a handler: its entry, the message the state check saw with what it
asked for and what the sender had, and the message the handler was given. -/
structure HandlerCall where
  handler : MessageHandler
  checked : Mem
  requiredState : ProcessState
  processState : ProcessState
  message : Mem

structure Notification where
  status : NtStatus
  accesses : List ClientAccess
  calls : List HandlerCall
  /-- The message sent about a state failure, with the states it reports. -/
  stateFailure : Option (ClientMessageId × ProcessState × ProcessState)

structure NotifyArgs where
  /-- The caller is the client's process, in user mode. -/
  expectedCaller : Bool
  inputBuffer : UInt64
  inputBufferLength : UInt32
  outputBuffer : UInt64
  outputBufferLength : UInt32

/-- The calls of a callback: the allocation and what the message holds at first, where
each copy raises, the state of the sender, and the handlers. -/
structure NotifyEnv where
  allocate : Bool
  allocated : Mem
  headFault : Option CopyFault
  tailFault : Option CopyFault
  writeFault : Option CopyFault
  processState : ProcessState
  handle : ClientMessageId → Mem → NtStatus × Mem

def NotifyArgs.valid (args : NotifyArgs) : Bool :=
  args.inputBuffer ≠ 0 && args.inputBufferLength.toNat ≥ messageMinSize &&
    args.inputBufferLength.toNat ≤ sizeofMessage && args.outputBuffer = 0 &&
    args.outputBufferLength = 0

/-- `RtlCopyVolatileMemory` of `n` bytes at `addr` of the client's memory, the first of
which is byte number `t` of the call. -/
def captured (client : Nat → Mem) (t addr n : Nat) : List UInt8 :=
  (List.range n).map fun i => client (t + i) (addr + i)

/-- How many of the `n` bytes are accessed. -/
def accessed (fault : Option CopyFault) (n : Nat) : Nat :=
  match fault with
  | none => n
  | some fault => min fault.done n

def capturedHead (client : Nat → Mem) (args : NotifyArgs) (allocated : Mem) : Mem :=
  (Store.mk 0 (captured client 0 args.inputBuffer.toNat messageMinSize)).apply allocated

/-- The message after the second one, whose length the first copy gives. -/
def capturedTail (client : Nat → Mem) (args : NotifyArgs) (msg : Mem) : Mem :=
  (Store.mk messageMinSize (captured client messageMinSize
    (args.inputBuffer.toNat + messageMinSize) (headerSize msg - messageMinSize))).apply msg

def Notification.failed (status : NtStatus) (accesses : List ClientAccess) : Notification :=
  ⟨status, accesses, [], none⟩

/-- The way out: the message is copied back if the client's buffer holds it. -/
def notifyReply (space : AddressSpace) (args : NotifyArgs) (env : NotifyEnv) (msg : Mem) :
    NtStatus × List ClientAccess :=
  if args.inputBufferLength.toNat < headerSize msg then
    (statusBufferTooSmall, [])
  else match probeForRead space (probeOutputBytes args.inputBuffer (headerSize msg)) with
    | some status => (status, [])
    | none =>
        ((env.writeFault.map CopyFault.status).getD statusSuccess,
          [.write args.inputBuffer.toNat (accessed env.writeFault (headerSize msg))])

/-- From the captured message on: the id, the state, the handler and the way out. -/
def notifyHandle (space : AddressSpace) (args : NotifyArgs) (env : NotifyEnv)
    (accesses : List ClientAccess) (msg : Mem) : Notification :=
  if headerMessageId msg ≤ invalidKphMsg ∨ headerMessageId msg ≥ maxKphMsgClient ∨
      headerMessageId msg ≥ kphCommsMessageHandlers.length then
    .failed statusMessageNotFound accesses
  else match kphCommsMessageHandlers[headerMessageId msg]? with
    | none | some ⟨_, none⟩ =>
        -- Asserted away: the table has an entry with a handler for every id in range.
        .failed statusMessageNotFound accesses
    | some ⟨messageId, some requiredState⟩ =>
        let required := requiredState msg
        if hasState env.processState required = false then
          ⟨statusAccessDenied, accesses, [], some (messageId, env.processState, required)⟩
        else
          let call : HandlerCall :=
            ⟨⟨messageId, some requiredState⟩, msg, required, env.processState, msg⟩
          let r := env.handle messageId msg
          if ntSuccess r.1 = false then
            ⟨r.1, accesses, [call], none⟩
          else
            let reply := notifyReply space args env r.2
            ⟨reply.1, accesses ++ reply.2, [call], none⟩

/-- The second capture, for a message that declares more than the minimum. -/
def notifyTail (space : AddressSpace) (client : Nat → Mem) (args : NotifyArgs)
    (env : NotifyEnv) (accesses : List ClientAccess) (msg : Mem) : Notification :=
  if headerSize msg > messageMinSize then
    let addr := args.inputBuffer.toNat + messageMinSize
    let len := headerSize msg - messageMinSize
    match probeForRead space ⟨addr, len, 1⟩ with
    | some status => .failed status accesses
    | none =>
        let accesses := accesses ++ [.read addr (accessed env.tailFault len)]
        match env.tailFault with
        | some fault => .failed fault.status accesses
        | none => notifyHandle space args env accesses (capturedTail client args msg)
  else
    notifyHandle space args env accesses msg

def kphpCommsMessageNotifyCallback (space : AddressSpace) (client : Nat → Mem)
    (args : NotifyArgs) (env : NotifyEnv) : Notification :=
  if args.expectedCaller = false then
    .failed statusAccessDenied []
  else if args.valid = false then
    .failed statusInvalidParameter []
  else if env.allocate = false then
    .failed statusInsufficientResources []
  else match probeForRead space (probeOutputBytes args.inputBuffer messageMinSize) with
    | some status => .failed status []
    | none =>
        let accesses := [.read args.inputBuffer.toNat (accessed env.headFault messageMinSize)]
        match env.headFault with
        | some fault => .failed fault.status accesses
        | none =>
            let msg := capturedHead client args env.allocated
            if ntSuccess (kphMsgValidate msg) = false then
              .failed (kphMsgValidate msg) accesses
            else
              notifyTail space client args env accesses msg

end SystemInformer.Driver
