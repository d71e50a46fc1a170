import SystemInformer.Driver.Probes
import SystemInformer.Lib.Bytes

/-!
# `KphReadVirtualMemory` with the bytes it delivers

The handler with every exit it has, the memory it reads from, the list of loaded modules
and the bytes that reach the caller's buffer. A read of a kernel range goes through a copy
buffer, on the stack or from the pool, and what the buffer held before is part of the model.
-/

namespace SystemInformer.Driver

open AccessTrace Bytes

/-! ## `KphValidateAddressForSystemModules` -/

structure SystemModule where
  dllBase : UInt64
  sizeOfImage : UInt32

/-- The module holds the range, as the loop tests it. -/
def SystemModule.accepts (module_ : SystemModule) (address endAddress : UInt64) : Bool :=
  let endOfImage := module_.dllBase + module_.sizeOfImage.toUInt64
  address ≥ module_.dllBase && endAddress ≤ endOfImage

/-- `acquire` says whether the lock of the module list could be had. -/
def kphValidateAddressForSystemModules (acquire : Bool) (modules : List SystemModule)
    (address length : UInt64) : NtStatus :=
  if address + length < address then
    statusBufferOverflow
  else if acquire = false then
    statusResourceNotOwned
  else if modules.any (·.accepts address (address + length)) then
    statusSuccess
  else
    statusAccessViolation

/-! ## The copies -/

/-- An exception in a block of stores: how far the block got and the exception's status,
which is an error. -/
structure CopyFault where
  done : Nat
  status : NtStatus
  failed : ntSuccess status = false

/-- The calls of a read. `mmCopyMemory` and `mmCopyVirtualMemory` copy a prefix of the
range they are given and report its length; `poolBuffer` is what an allocated copy
buffer holds at first. -/
structure CopyEnv where
  modules : List SystemModule
  acquireModules : Bool
  acquireAgain : Bool
  allocate : Bool
  poolBuffer : List UInt8
  mmCopyMemory : UInt64 → UInt64 → NtStatus × Nat
  mmCopyMemory_le : ∀ address size, (mmCopyMemory address size).2 ≤ size.toNat
  copyFault : Option CopyFault
  referenceProcess : NtStatus
  mmCopyVirtualMemory : UInt64 → UInt64 → NtStatus × Nat
  mmCopyVirtualMemory_le : ∀ address size, (mmCopyVirtualMemory address size).2 ≤ size.toNat
  exitFault : Option CopyFault

/-- The copy buffer after `n` bytes were copied to it. -/
def copyBuffer (source : Mem) (address n : Nat) (initial : List UInt8) : List UInt8 :=
  load source address n ++ initial.drop n

/-- `RtlCopyMemory` of `n` bytes inside `__try`: the bytes that were stored, and the
status if it raised. -/
def tryCopyBytes (bytes : List UInt8) (n : Nat) (fault : Option CopyFault) :
    List UInt8 × Option NtStatus :=
  match fault with
  | none => (bytes.take n, none)
  | some fault => (bytes.take (min fault.done n), some fault.status)

/-- The part after the probes: the status, the number of bytes read, and the bytes
stored at `Buffer` if a copy was made. -/
def readCopyFrom (space : AddressSpace) (source : Mem) (args : ReadArgs) (env : CopyEnv) :
    NtStatus × Nat × Option (List UInt8) :=
  if args.bufferSize = 0 then
    (statusSuccess, 0, none)
  else if (args.baseAddress + args.bufferSize).toNat > space.highestUserAddress then
    if env.acquireModules = false then
      (statusResourceNotOwned, 0, none)
    else
      let status := kphValidateAddressForSystemModules env.acquireAgain env.modules
        args.baseAddress args.bufferSize
      if ntSuccess status = false then
        (status, 0, none)
      else if args.bufferSize.toNat > readStackBuffer ∧ env.allocate = false then
        (statusInsufficientResources, 0, none)
      else
        let initial := if args.bufferSize.toNat ≤ readStackBuffer then
          List.replicate readStackBuffer 0 else env.poolBuffer
        let r := env.mmCopyMemory args.baseAddress args.bufferSize
        let buffer := copyBuffer source args.baseAddress.toNat r.2 initial
        let copy := tryCopyBytes buffer r.2 env.copyFault
        (copy.2.getD r.1, r.2, some copy.1)
  else if args.processHandle = 0 then
    (statusInvalidParameter1, 0, none)
  else if ntSuccess env.referenceProcess = false then
    (env.referenceProcess, 0, none)
  else
    let r := env.mmCopyVirtualMemory args.baseAddress args.bufferSize
    (r.1, r.2, some (load source args.baseAddress.toNat r.2))

/-! ## The handler -/

/-- What a read leaves: the probes that passed, the bytes stored at `Buffer` if a copy
was made, and the stores of the exit block. -/
structure Delivery where
  status : NtStatus
  numberOfBytesRead : Nat
  probes : List Event
  copied : Option (List UInt8)
  exit : List Store

/-- The store of `numberOfBytesRead` in the exit block. -/
def exitStoreBytes (mode : ProcessorMode) (pointer : UInt64) (numberOfBytesRead : Nat)
    (fault : Option CopyFault) : List Store :=
  if pointer = 0 then []
  else match mode with
    | .userMode =>
        match fault with
        | none => [Store.field pointer.toNat sizeofSizeT numberOfBytesRead]
        | some fault => [Store.field pointer.toNat sizeofSizeT numberOfBytesRead].take fault.done
    | .kernelMode => [Store.field pointer.toNat sizeofSizeT numberOfBytesRead]

def kphReadVirtualMemoryFrom (space : AddressSpace) (source : Mem) (args : ReadArgs)
    (mode : ProcessorMode) (env : CopyEnv) : Delivery :=
  let leave (probes : List Event) (r : NtStatus × Nat × Option (List UInt8)) : Delivery :=
    ⟨r.1, r.2.1, probes, r.2.2,
      exitStoreBytes mode args.numberOfBytesRead r.2.1 env.exitFault⟩
  if args.buffer = 0 then
    leave [] (statusInvalidParameter3, 0, none)
  else match mode with
    | .kernelMode => leave [] (readCopyFrom space source args env)
    | .userMode =>
        if args.baseAddress + args.bufferSize < args.baseAddress then
          leave [] (statusAccessViolation, 0, none)
        else
          let probes := runProbes space
            (probeOutputBytes args.buffer args.bufferSize.toNat ::
              if args.numberOfBytesRead = 0 then []
              else [probeOutputType args.numberOfBytesRead sizeofSizeT])
          match probes.2 with
          | some status => leave probes.1 (status, 0, none)
          | none => leave probes.1 (readCopyFrom space source args env)

def Delivery.delivered (d : Delivery) : List UInt8 := d.copied.getD []

/-- The stores of a read, in order. -/
def Delivery.stores (buffer : UInt64) (d : Delivery) : List Store :=
  (d.copied.toList.map fun bytes => ⟨buffer.toNat, bytes⟩) ++ d.exit

end SystemInformer.Driver
