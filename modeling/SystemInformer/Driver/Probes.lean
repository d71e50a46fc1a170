import SystemInformer.Base.Nt

/-!
# Probes of caller-supplied pointers

A request comes with pointers of its caller. Inside `__try` a handler probes the ranges that it
is going to store to. A probe that raises ends the block, and the handler's `__except` then runs
with the exception's status. A pointer is a 64-bit value, 0 being null.
-/

namespace AccessTrace

/-- What a routine does to memory it was handed a pointer to. -/
inductive Event where
  | probe (addr len : Nat)
  | write (addr len : Nat)
  deriving DecidableEq, Repr

end AccessTrace

namespace SystemInformer.Driver

open AccessTrace

/-- `KPROCESSOR_MODE`. -/
inductive ProcessorMode where
  | kernelMode
  | userMode
  deriving DecidableEq

/-- The split of the address space: `MmUserProbeAddress`, the first address a
probe refuses, and `MmHighestUserAddress`. -/
structure AddressSpace where
  userProbeAddress : Nat
  highestUserAddress : Nat

/-- The arguments of one `ProbeForRead`. -/
structure Probe where
  addr : Nat
  len : Nat
  align : Nat

/-- `ProbeForRead`: an empty range is not looked at; otherwise the address must
be aligned and the range must end inside the user part. `none` when it
returns, the status it raises otherwise. -/
def probeForRead (space : AddressSpace) (p : Probe) : Option NtStatus :=
  if p.len = 0 then
    none
  else if p.addr % p.align ≠ 0 then
    some statusDatatypeMisalignment
  else if p.addr + p.len > space.userProbeAddress then
    some statusAccessViolation
  else
    none

/-- `ProbeOutputBytes(pointer, size)`. -/
def probeOutputBytes (pointer : UInt64) (size : Nat) : Probe := ⟨pointer.toNat, size, 1⟩

/-- `ProbeOutputType(pointer, type)` for a type of `size` bytes aligned to its
size. -/
def probeOutputType (pointer : UInt64) (size : Nat) : Probe := ⟨pointer.toNat, size, size⟩

/-- The probes of one `__try` block in order: the ranges that passed, and the
status of the one that raised, if any. -/
def runProbes (space : AddressSpace) : List Probe → List Event × Option NtStatus
  | [] => ([], none)
  | p :: rest =>
      match probeForRead space p with
      | some status => ([], some status)
      | none =>
          let r := runProbes space rest
          (.probe p.addr p.len :: r.1, r.2)

/-- Where a block of stores inside `__try` raises: after how many stores (bytes,
for a copy), and with which status; `none` if it runs to its end. -/
abbrev Fault := Option (Nat × NtStatus)

/-- The arguments of `KphReadVirtualMemory`. -/
structure ReadArgs where
  processHandle : UInt64
  baseAddress : UInt64
  buffer : UInt64
  bufferSize : UInt64
  numberOfBytesRead : UInt64

/-- The size of `stackBuffer`. -/
def readStackBuffer : Nat := 0x200

def sizeofSizeT : Nat := 8

end SystemInformer.Driver
