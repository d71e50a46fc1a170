import SystemInformer.Driver.Probes
import SystemInformer.KphLib.DynData

/-!
# Activating dynamic data (`dyndata.c`)

`KphActivateDynData` captures a configuration and its signature and hands them to
`KphpActivateDynData`, which verifies the one by the other, looks up the fields of the
loaded modules and puts the dynamic data it makes of them in place of what was active.

A call answers its status, what is active afterwards and the trace of what it did to
buffers: the blocks it allocated, the ranges it probed, the bytes it copied from its caller
and the blocks it freed. The outcomes of the calls it makes are parameters; an allocation
is the address it answers, 0 for none. The bytes of the configuration are those the copy
found, since its owner may change them at any time.
-/

namespace SystemInformer.Driver

open Bytes KphLib

def statusDyndataInvalidSignature : NtStatus := 0xE0020004

/-! ## `KphpActivateDynData` -/

/-- An entry of `KphpDynModules`. -/
structure DynModule where
  valid : Bool
  query : DynQuery

structure DynModules where
  ntoskrnl : DynModule
  ntkrla57 : DynModule
  lxcore : DynModule

/-- The outcomes of `KphVerifyBuffer` and `KphCreateObject`. -/
structure DynOutcomes where
  modules : DynModules
  verifyBuffer : NtStatus
  createObject : NtStatus

/-- `KphDynDataLookup` for a module, if it is loaded. -/
def DynModule.lookup (dynModule : DynModule) (config : Mem) (length : UInt32) :
    DynDataAnswer :=
  if dynModule.valid then (kphDynDataLookup length dynModule.query false true).val config
  else .failed statusNotFound

def DynModules.lookupKernel (modules : DynModules) (config : Mem) (length : UInt32) :
    DynDataAnswer :=
  if modules.ntoskrnl.valid then modules.ntoskrnl.lookup config length
  else modules.ntkrla57.lookup config length

/-- `KphpActivateDynData`: the status and what is active afterwards. -/
def kphpActivateDynData (env : DynOutcomes) (config : Mem) (length : UInt32) (signed : Bool)
    (active : Option KphDyn) : NtStatus × Option KphDyn :=
  if signed ∧ ¬ ntSuccess env.verifyBuffer then (statusDyndataInvalidSignature, active)
  else
    let kernel := env.modules.lookupKernel config length
    if ¬ ntSuccess kernel.status then (kernel.status, active)
    else
      -- The lookup for lxcore may fail, activating does not require its data.
      let lxcore := env.modules.lxcore.lookup config length
      if ¬ ntSuccess env.createObject then (env.createObject, active)
      else
        let dyn := (kphpInitializeDynData (kernel.fields.getD 0) lxcore.fields).val config
        (env.createObject, some dyn)

/-! ## `KphActivateDynData` -/

inductive CallerBuffer where
  | dynData
  | signature
  deriving DecidableEq

inductive BufferEvent where
  | allocate (address : UInt64)
  | probe (buffer : CallerBuffer) (length : Nat)
  | copy (buffer : CallerBuffer) (length : Nat)
  | free (address : UInt64)
  deriving DecidableEq

structure ActivateArgs where
  dynData : UInt64
  dynDataLength : UInt32
  signature : UInt64
  signatureLength : UInt32
  accessMode : ProcessorMode

structure ActivateEnv extends DynOutcomes where
  allocateDynData : UInt64
  allocateSignature : UInt64
  copyDynData : Fault
  copySignature : Fault
  config : Mem

structure ActivateResult where
  status : NtStatus
  active : Option KphDyn
  trace : List BufferEvent

/-- `ProbeInputBytes(pointer, size)`. -/
def probeInputBytes (pointer : UInt64) (size : UInt32) : Probe := ⟨pointer.toNat, size.toNat, 1⟩

/-- `ProbeInputBytes` of a buffer and the copy that follows it: what was done, and the
status that was raised, if any. -/
def probeAndCopy (space : AddressSpace) (buffer : CallerBuffer) (pointer : UInt64)
    (probed copied : UInt32) (fault : Fault) : List BufferEvent × Option NtStatus :=
  match probeForRead space (probeInputBytes pointer probed) with
  | some status => ([], some status)
  | none =>
      match fault with
      | none => ([.probe buffer probed.toNat, .copy buffer copied.toNat], none)
      | some (done, status) =>
          ([.probe buffer probed.toNat, .copy buffer (min done copied.toNat)], some status)

/-- The `__try` block. -/
def captureBuffers (space : AddressSpace) (args : ActivateArgs) (env : ActivateEnv) :
    List BufferEvent × Option NtStatus :=
  match probeAndCopy space .dynData args.dynData args.dynDataLength args.dynDataLength
      env.copyDynData with
  | (trace, some status) => (trace, some status)
  | (trace, none) =>
      -- The signature is probed with the length of the other buffer.
      let r := probeAndCopy space .signature args.signature args.dynDataLength
        args.signatureLength env.copySignature
      (trace ++ r.1, r.2)

/-- The end of the function: both pointers are compared with `DynData`. -/
def activateExit (args : ActivateArgs) (dynData signature : UInt64) : List BufferEvent :=
  (if dynData ≠ 0 ∧ dynData ≠ args.dynData then [.free dynData] else []) ++
    (if signature ≠ 0 ∧ signature ≠ args.dynData then [.free signature] else [])

def kphActivateDynData (space : AddressSpace) (args : ActivateArgs) (env : ActivateEnv)
    (active : Option KphDyn) : ActivateResult :=
  if args.dynData = 0 ∨ args.dynDataLength = 0 then
    ⟨statusInvalidParameter, active, activateExit args 0 0⟩
  else if args.signature = 0 ∨ args.signatureLength = 0 then
    ⟨statusDyndataInvalidSignature, active, activateExit args 0 0⟩
  else match args.accessMode with
    | .userMode =>
        if env.allocateDynData = 0 then
          ⟨statusInsufficientResources, active, activateExit args 0 0⟩
        else if env.allocateSignature = 0 then
          ⟨statusInsufficientResources, active,
            .allocate env.allocateDynData :: activateExit args env.allocateDynData 0⟩
        else
          let blocks := [.allocate env.allocateDynData, .allocate env.allocateSignature]
          let exit := activateExit args env.allocateDynData env.allocateSignature
          match captureBuffers space args env with
          | (trace, some status) => ⟨status, active, blocks ++ trace ++ exit⟩
          | (trace, none) =>
              let r := kphpActivateDynData env.toDynOutcomes env.config args.dynDataLength
                true active
              ⟨r.1, r.2, blocks ++ trace ++ exit⟩
    | .kernelMode =>
        let r := kphpActivateDynData env.toDynOutcomes env.config args.dynDataLength true active
        ⟨r.1, r.2, activateExit args args.dynData args.signature⟩

end SystemInformer.Driver
