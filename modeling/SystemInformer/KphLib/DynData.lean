import SystemInformer.Base.Nt
import SystemInformer.Lib.Reading

/-!
# The dynamic data configuration (`kphdyndata.c`, `dyndata.c`)

A configuration is a packed structure at address 0: the version, the public key for
session tokens, the number of entries, the entries and, after them, the area that
the entries' offsets point into. The lookup compares the fields of an entry from
left to right and stops at the first that differs, and it reads the count anew each
time round. What a driver then does with the fields it was pointed to is
`kphpInitializeDynData`.
-/

namespace SystemInformer.KphLib

open Bytes

/-! ## Layout -/

def dynConfigurationVersion : Nat := 15
def dynSessionTokenPublicKeyLength : Nat := 539

/-- `KPH_DYN_CLASS_NTOSKRNL`, `KPH_DYN_CLASS_NTKRLA57` and `KPH_DYN_CLASS_LXCORE`. -/
def dynClassNtoskrnl : UInt16 := 0
def dynClassNtkrla57 : UInt16 := 1
def dynClassLxcore : UInt16 := 2

def dynPublicKeyAddr : Nat := 4
def dynCountAddr : Nat := 543

/-- `RTL_SIZEOF_THROUGH_FIELD(KPH_DYN_CONFIG, Count)`. -/
def sizeofDynHeader : Nat := 547

def sizeofDynData : Nat := 16

/-- The address of `Config->Data[i]`. -/
def dynDataAddr (i : Nat) : Nat := sizeofDynHeader + sizeofDynData * i

/-- The number of `USHORT` fields of `KPH_DYN_KERNEL_FIELDS` and of
`KPH_DYN_LXCORE_FIELDS`. -/
def dynKernelFields : Nat := 31
def dynLxcoreFields : Nat := 5

def statusDyndataUnsupportedKernel : NtStatus := 0xE0020001
def statusDyndataVersionMismatch : NtStatus := 0xE0020002
def statusDyndataInvalidLength : NtStatus := 0xE0020003

/-! ## `KphDynDataLookup` -/

structure DynQuery where
  class_ : UInt16
  machine : UInt16
  timeDateStamp : UInt32
  sizeOfImage : UInt32

/-- The status and what is stored through `Data` and `Fields`: addresses in the
configuration, none for a null pointer. -/
structure DynDataAnswer where
  status : NtStatus
  data : Option Nat
  fields : Option Nat

def DynDataAnswer.failed (status : NtStatus) : DynDataAnswer := ⟨status, none, none⟩

/-- Whether entry `i` is the one asked for. -/
def dynDataMatches (query : DynQuery) (i : Nat) : Reading Bool := do
  let class_ ← Reading.field (dynDataAddr i) 2
  if class_ ≠ query.class_.toNat then
    pure false
  else do
    let machine ← Reading.field (dynDataAddr i + 2) 2
    if machine ≠ query.machine.toNat then
      pure false
    else do
      let timeDateStamp ← Reading.field (dynDataAddr i + 4) 4
      if timeDateStamp ≠ query.timeDateStamp.toNat then
        pure false
      else do
        let sizeOfImage ← Reading.field (dynDataAddr i + 8) 4
        pure (sizeOfImage = query.sizeOfImage.toNat)

/-- The entry was found: its offset is checked and the two pointers are answered. -/
def dynDataFound (length i : Nat) (data fields : Bool) : Reading DynDataAnswer := do
  let offset ← Reading.field (dynDataAddr i + 12) 4
  if offset ≥ length then
    pure (.failed statusDyndataInvalidLength)
  else if fields then do
    let count ← Reading.field dynCountAddr 4
    let offset ← Reading.field (dynDataAddr i + 12) 4
    pure ⟨statusSuccess, if data then some (dynDataAddr i) else none,
      some (dynDataAddr count + offset)⟩
  else
    pure ⟨statusSuccess, if data then some (dynDataAddr i) else none, none⟩

/-- The loop over the entries, with `n` of them left from entry `i` on. -/
def dynDataScan (query : DynQuery) (length : Nat) (data fields : Bool) :
    Nat → Nat → Reading DynDataAnswer
  | 0, _ => do
      let _ ← Reading.field dynCountAddr 4
      pure (.failed statusDyndataUnsupportedKernel)
  | n + 1, i => do
      let _ ← Reading.field dynCountAddr 4
      let found ← dynDataMatches query i
      if found then dynDataFound length i data fields
      else dynDataScan query length data fields n (i + 1)

/-- `KphDynDataLookup`; `data` and `fields` say whether the pointers are there. -/
def kphDynDataLookup (length : UInt32) (query : DynQuery) (data fields : Bool) :
    Reading DynDataAnswer :=
  match rtlULongSub length.toNat sizeofDynHeader with
  | .error _ => pure (.failed statusDyndataInvalidLength)
  | .ok length => do
      let version ← Reading.field 0 4
      if version ≠ dynConfigurationVersion then
        pure (.failed statusDyndataVersionMismatch)
      else do
        let count ← Reading.field dynCountAddr 4
        match rtlULongMult sizeofDynData count with
        | .error _ => pure (.failed statusDyndataInvalidLength)
        | .ok dataLength =>
            match rtlULongSub length dataLength with
            | .error _ => pure (.failed statusDyndataInvalidLength)
            | .ok length => dynDataScan query length data fields count 0

/-! ## `KphpInitializeDynData` -/

/-- `C_2sTo4`: the field as a signed 16-bit number, extended to 32 bits. -/
def c2sTo4 (x : Nat) : Nat := if x < 2 ^ 15 then x else x + 2 ^ 32 - 2 ^ 16

/-- The fields of the structure at `base`, in order. -/
def loadDynItems (base : Nat) : Nat → Nat → Reading (List Nat)
  | 0, _ => pure []
  | n + 1, i => do
      let item ← Reading.field (base + 2 * i) 2
      let rest ← loadDynItems base n (i + 1)
      pure (c2sTo4 item :: rest)

/-- `KPH_DYN`: the items of the kernel structure and of the lxcore structure, each in
the order of the source, and the session token public key. -/
structure KphDyn where
  kernel : List Nat
  lxcore : List Nat
  sessionTokenPublicKey : Nat

def kphpInitializeDynData (kernel : Nat) (lxcore : Option Nat) : Reading KphDyn := do
  let kernelItems ← loadDynItems kernel dynKernelFields 0
  let lxcoreItems ← match lxcore with
    | some base => loadDynItems base dynLxcoreFields 0
    | none => pure (List.replicate dynLxcoreFields ulongMax)
  let key ← Reading.field dynPublicKeyAddr dynSessionTokenPublicKeyLength
  pure ⟨kernelItems, lxcoreItems, key⟩

end SystemInformer.KphLib
