import SystemInformer.Base.Nt

/-!
# Protected processes (`protection.c`)

A handle table entry names an object and the access it grants. `KphStartProtectingProcess`
takes the target's `ProtectionLock` exclusively, walks the handle tables of all processes
and reduces the access of the entries that name the target or one of its threads;
`KphApplyObProtections` takes the lock shared and reduces the access that a new handle
asks for.

The walk is not one step: each process context and each entry of a handle table is
visited in a step of its own, and steps that do not need the lock may come in between.
Making a handle is one step with its filter. What the system answers (which processes
dominate others, which one is LSA, which thread creates which process) is a parameter
that stays as it is.

`π` are the process contexts and `τ` the thread contexts; all are tracked. An entry also
remembers how it was made, and whether protections were suppressed for it.
-/

namespace SystemInformer.Driver

abbrev AccessMask := BitVec 32

def statusAlreadyComplete : NtStatus := 0x000000FF
def statusPrivilegeNotHeld : NtStatus := 0xC0000061
def statusTooLate : NtStatus := 0xC0000189

/-! ## Objects and handles -/

inductive ObObject (π τ : Type) where
  | process (process : π)
  | thread (thread : τ)
  | other

/-- `OB_OPERATION_HANDLE_CREATE` and `OB_OPERATION_HANDLE_DUPLICATE`. -/
inductive ObOperation where
  | handleCreate
  | handleDuplicate
  deriving DecidableEq

structure HandleTableEntry (π τ : Type) where
  object : ObObject π τ
  grantedAccess : AccessMask
  kernelHandle : Bool
  operation : ObOperation
  actor : τ
  suppressed : Bool

def objGrantedAccessMask : AccessMask := 0x01ffffff

def obpDecodeGrantedAccess (access : AccessMask) : AccessMask := access &&& objGrantedAccessMask

/-- `ObpSetGrantedAccess`: the high bits stay. -/
def obpSetGrantedAccess (grantedAccess access : AccessMask) : AccessMask :=
  access ||| (grantedAccess &&& ~~~objGrantedAccessMask)

/-- `IsKernelHandle`, for a handle as a word of 64 bits. -/
def isKernelHandle (handle : Nat) : Bool := 2 ^ 63 ≤ handle

/-! ## What the system answers -/

/-- The offsets of `KPH_DYN` that the enumeration needs; `ULONG_MAX` if unknown. -/
structure ProtectionDyn where
  obDecodeShift : Nat
  htHandleContentionEvent : Nat
  epObjectTable : Nat

structure ProtectionWorld (π τ : Type) where
  processes : List π
  tracked : ∀ process, process ∈ processes
  processId : π → Nat
  /-- `PsGetThreadProcess`, and the process context of a thread context. -/
  threadProcess : τ → π
  isCreatingProcess : τ → Bool
  isCreatingProcessId : τ → Nat
  /-- `KphDominationCheck` of the target against the actor. -/
  dominationCheck : π → π → NtStatus
  processIsLsass : π → NtStatus × Bool
  processState : π → UInt32

/-! ## State -/

/-- `Protected`, `ProcessAllowedMask` and `ThreadAllowedMask` of a process context. -/
structure ProcessProtection where
  isProtected : Bool
  processAllowedMask : AccessMask
  threadAllowedMask : AccessMask

def ProcessProtection.stopped : ProcessProtection := ⟨false, 0, 0⟩

/-- Where a `KphStartProtectingProcess` is that holds the lock: the process contexts still
to come, the handle table it is in with the next handle to look at, and
`context.Status`. -/
structure ProtectionEnum (π : Type) where
  dyn : ProtectionDyn
  status : NtStatus
  todo : List π
  walk : Option (π × Nat)

abbrev HandleTable (π τ : Type) := Nat → Option (HandleTableEntry π τ)

structure ProtectionState (π τ : Type) where
  protection : π → ProcessProtection
  /-- The handle table of a process, or why `KphReferenceProcessHandleTable` fails. -/
  handleTable : π → Except NtStatus (HandleTable π τ)
  /-- Who holds the `ProtectionLock` exclusively. -/
  enumeration : π → Option (ProtectionEnum π)

section

variable {π τ : Type} [DecidableEq π]

/-! ## Filtering a handle -/

def kphpShouldSuppressObjectProtections (w : ProtectionWorld π τ) (actor target : π) :
    Except NtStatus Bool :=
  if ntSuccess (w.dominationCheck target actor) = false then .ok true
  else
    let (status, isLsass) := w.processIsLsass actor
    if ntSuccess status = false then .error status else .ok isLsass

/-- `OB_PRE_OPERATION_INFORMATION`, with the actor thread. -/
structure ObPreOperation (π τ : Type) where
  operation : ObOperation
  object : ObObject π τ
  kernelHandle : Bool
  desiredAccess : AccessMask
  actor : τ

def kphProcessStateMinimum : UInt32 := 0x000002f0

def kphpShouldPermitCreatorProcess (w : ProtectionWorld π τ) (info : ObPreOperation π τ)
    (process : π) : Bool :=
  if info.operation = .handleDuplicate then false
  else if w.isCreatingProcess info.actor = false ∨
      w.isCreatingProcessId info.actor ≠ w.processId process then false
  else w.processState (w.threadProcess info.actor) &&& kphProcessStateMinimum ==
    kphProcessStateMinimum

/-- `KPH_PROCESS_READ_ACCESS | PROCESS_TERMINATE | PROCESS_VM_OPERATION |
PROCESS_VM_WRITE`. -/
def creatorProcessAccess : AccessMask := 0x00121439

/-- `KPH_THREAD_READ_ACCESS | THREAD_TERMINATE | THREAD_RESUME`. -/
def creatorThreadAccess : AccessMask := 0x00121849

/-- The process that the object is or belongs to. -/
def ObObject.owner (w : ProtectionWorld π τ) : ObObject π τ → Option π
  | .process p => some p
  | .thread t => some (w.threadProcess t)
  | .other => none

/-- The process whose lock `KphApplyObProtections` takes. -/
def obTarget (w : ProtectionWorld π τ) (info : ObPreOperation π τ) : Option π :=
  if info.kernelHandle then none
  else match info.object.owner w with
    | none => none
    | some process => if process = w.threadProcess info.actor then none else some process

def ProcessProtection.allowedMask (protection : ProcessProtection) : ObObject π τ → AccessMask
  | .process _ => protection.processAllowedMask
  | .thread _ => protection.threadAllowedMask
  | .other => 0

def creatorAccess : ObObject π τ → AccessMask
  | .process _ => creatorProcessAccess
  | .thread _ => creatorThreadAccess
  | .other => 0

/-- A check that fails does not suppress. -/
def obSuppress (w : ProtectionWorld π τ) (info : ObPreOperation π τ) (process : π) : Bool :=
  match kphpShouldSuppressObjectProtections w (w.threadProcess info.actor) process with
  | .error _ => false
  | .ok suppress => suppress

def obAllowedAccessMask (w : ProtectionWorld π τ) (protection : ProcessProtection)
    (info : ObPreOperation π τ) (process : π) : AccessMask :=
  if kphpShouldPermitCreatorProcess w info process then
    protection.allowedMask info.object ||| creatorAccess info.object
  else protection.allowedMask info.object

/-- The access that is left, and whether protections were suppressed. -/
def kphApplyObProtections (w : ProtectionWorld π τ) (protection : π → ProcessProtection)
    (info : ObPreOperation π τ) : AccessMask × Bool :=
  match obTarget w info with
  | none => (info.desiredAccess, false)
  | some process =>
      if (protection process).isProtected = false then (info.desiredAccess, false)
      else if obSuppress w info process then (info.desiredAccess, true)
      else
        let allowedAccessMask := obAllowedAccessMask w (protection process) info process
        if info.desiredAccess &&& allowedAccessMask ≠ info.desiredAccess then
          (info.desiredAccess &&& allowedAccessMask, false)
        else (info.desiredAccess, false)

/-! ## Stripping existing handles -/

/-- `Modifying … handle`: the entry with the access it may keep. -/
def HandleTableEntry.strip (entry : HandleTableEntry π τ) (allowedAccessMask : AccessMask) :
    HandleTableEntry π τ :=
  let grantedAccess := obpDecodeGrantedAccess entry.grantedAccess
  if grantedAccess &&& allowedAccessMask ≠ grantedAccess then
    { entry with
      grantedAccess := obpSetGrantedAccess entry.grantedAccess (grantedAccess &&& allowedAccessMask) }
  else entry

/-- The entry as the callback leaves it, or the status with which it stops. -/
def kphpEnumProcessHandlesForProtection (w : ProtectionWorld π τ) (dyn : ProtectionDyn) (process : π)
    (protection : ProcessProtection) (handle : Nat) (entry : HandleTableEntry π τ) :
    Except NtStatus (HandleTableEntry π τ) :=
  if isKernelHandle handle then .ok entry
  else if dyn.obDecodeShift = ulongMax then .error statusNoInterface
  else match entry.object with
    | .process object =>
        if process ≠ object then .ok entry else .ok (entry.strip protection.processAllowedMask)
    | .thread thread =>
        if process ≠ w.threadProcess thread then .ok entry
        else .ok (entry.strip protection.threadAllowedMask)
    | .other => .ok entry

/-- What `KphEnumerateProcessHandlesEx` does before it walks: `dyn` is the dynamic data
it refers to. -/
def kphEnumerateProcessHandlesEx (dyn : Option ProtectionDyn)
    (table : Except NtStatus (HandleTable π τ)) : Except NtStatus (HandleTable π τ) :=
  match dyn with
  | none => .error statusNoInterface
  | some dyn =>
      if dyn.htHandleContentionEvent = ulongMax ∨ dyn.epObjectTable = ulongMax then
        .error statusNoInterface
      else table

/-- What becomes of a process context: it is passed over, it is passed over because
protections are suppressed, its handle table is walked, or the enumeration stops. -/
inductive ProtectionVisit where
  | pass
  | suppress
  | walk
  | stop (status : NtStatus)

def kphpEnumProcessContextsForProtection (w : ProtectionWorld π τ) (target process : π)
    (dyn : Option ProtectionDyn) (table : Except NtStatus (HandleTable π τ)) : ProtectionVisit :=
  if process = target then .pass
  else match kphpShouldSuppressObjectProtections w process target with
    | .error status => .stop status
    | .ok true => .suppress
    | .ok false => match kphEnumerateProcessHandlesEx dyn table with
        | .error status => if status = statusNoInterface then .stop status else .pass
        | .ok _ => .walk

/-! ## Steps -/

def ProtectionState.setEnumeration (s : ProtectionState π τ) (process : π)
    (e : Option (ProtectionEnum π)) : ProtectionState π τ :=
  { s with enumeration := Function.update s.enumeration process e }

def ProtectionState.setProtection (s : ProtectionState π τ) (process : π)
    (protection : ProcessProtection) : ProtectionState π τ :=
  { s with protection := Function.update s.protection process protection }

def ProtectionState.setTable (s : ProtectionState π τ) (holder : π)
    (table : Except NtStatus (HandleTable π τ)) : ProtectionState π τ :=
  { s with handleTable := Function.update s.handleTable holder table }

/-- The entries that name the target remember that they were passed over. -/
def markSuppressed (w : ProtectionWorld π τ) (target : π) (table : HandleTable π τ) :
    HandleTable π τ := fun handle =>
  (table handle).map fun entry =>
    if entry.object.owner w = some target then { entry with suppressed := true } else entry

/-- The state after a visit, where `e` has the process contexts still to come. -/
def ProtectionState.visited (w : ProtectionWorld π τ) (s : ProtectionState π τ) (target process : π)
    (e : ProtectionEnum π) : ProtectionVisit → ProtectionState π τ
  | .pass => s.setEnumeration target (some e)
  | .suppress =>
      (s.setTable process ((s.handleTable process).map (markSuppressed w target))).setEnumeration
        target (some e)
  | .walk => s.setEnumeration target (some { e with walk := some (process, 0) })
  | .stop status => s.setEnumeration target (some { e with todo := [], status := status })

/-- The state after the callback had the entry of `handle`. -/
def ProtectionState.entered (s : ProtectionState π τ) (target process : π) (e : ProtectionEnum π)
    (table : HandleTable π τ) (handle : Nat) :
    Except NtStatus (HandleTableEntry π τ) → ProtectionState π τ
  | .ok entry =>
      (s.setTable process (.ok (Function.update table handle (some entry)))).setEnumeration target
        (some { e with walk := some (process, handle + 1) })
  | .error status => s.setEnumeration target (some { e with walk := none, status := status })

/-- The end of `KphStartProtectingProcess`. -/
def ProtectionState.finished (s : ProtectionState π τ) (process : π) (status : NtStatus) :
    ProtectionState π τ :=
  if ntSuccess status then s.setEnumeration process none
  else (s.setProtection process .stopped).setEnumeration process none

/-- What a run shows: a return of `KphStartProtectingProcess`, a `KphStopProtectingProcess`,
or anything else. -/
inductive ProtectionEvent (π : Type) where
  | started (process : π) (status : NtStatus)
  | stopped (process : π)
  | silent

inductive ProtectionStep (w : ProtectionWorld π τ) :
    ProtectionState π τ → ProtectionEvent π → ProtectionState π τ → Prop where
  /-- No dynamic data, or the privilege is not held. -/
  | startRefused {s : ProtectionState π τ} (process : π) {status : NtStatus}
      (hstatus : status = statusNoInterface ∨ status = statusPrivilegeNotHeld) :
      ProtectionStep w s (.started process status) s
  | startAlready {s : ProtectionState π τ} {process : π} (hlock : s.enumeration process = none)
      (hprotected : (s.protection process).isProtected = true) :
      ProtectionStep w s (.started process statusAlreadyComplete) s
  | startLocked {s : ProtectionState π τ} (process : π) (dyn : ProtectionDyn)
      (processAllowedMask threadAllowedMask : AccessMask) (hlock : s.enumeration process = none)
      (hprotected : (s.protection process).isProtected = false) :
      ProtectionStep w s .silent
        ((s.setProtection process ⟨true, processAllowedMask, threadAllowedMask⟩).setEnumeration
          process (some ⟨dyn, statusSuccess, w.processes, none⟩))
  | visit {s : ProtectionState π τ} (target : π) {process : π} {e : ProtectionEnum π} {todo : List π}
      (dyn : Option ProtectionDyn) (he : s.enumeration target = some e) (hwalk : e.walk = none)
      (htodo : e.todo = process :: todo) :
      ProtectionStep w s .silent
        (s.visited w target process { e with todo := todo }
          (kphpEnumProcessContextsForProtection w target process dyn (s.handleTable process)))
  | entry {s : ProtectionState π τ} (target : π) {process : π} {e : ProtectionEnum π} {next : Nat}
      (handle : Nat) {table : HandleTable π τ} {entry : HandleTableEntry π τ}
      (he : s.enumeration target = some e) (hwalk : e.walk = some (process, next))
      (htable : s.handleTable process = .ok table) (hnext : next ≤ handle)
      (hskip : ∀ i, next ≤ i → i < handle → table i = none) (hentry : table handle = some entry) :
      ProtectionStep w s .silent
        (s.entered target process e table handle
          (kphpEnumProcessHandlesForProtection w e.dyn target (s.protection target) handle entry))
  | walked {s : ProtectionState π τ} (target : π) {process : π} {e : ProtectionEnum π} {next : Nat}
      {table : HandleTable π τ} (he : s.enumeration target = some e)
      (hwalk : e.walk = some (process, next)) (htable : s.handleTable process = .ok table)
      (hend : ∀ i, next ≤ i → table i = none) :
      ProtectionStep w s .silent (s.setEnumeration target (some { e with walk := none }))
  | startReturned {s : ProtectionState π τ} (process : π) {e : ProtectionEnum π} {status : NtStatus}
      (he : s.enumeration process = some e) (hwalk : e.walk = none) (htodo : e.todo = [])
      (hstatus : e.status = status) :
      ProtectionStep w s (.started process status) (s.finished process status)
  | stop {s : ProtectionState π τ} {process : π} (hlock : s.enumeration process = none) :
      ProtectionStep w s (.stopped process) (s.setProtection process .stopped)
  /-- A handle is created or duplicated into the table of `holder`. -/
  | handle {s : ProtectionState π τ} (info : ObPreOperation π τ) {holder : π} {handle : Nat}
      {table : HandleTable π τ} {grantedAccess : AccessMask}
      (hlock : ∀ process, obTarget w info = some process → s.enumeration process = none)
      (htable : s.handleTable holder = .ok table) (hfree : table handle = none)
      (huser : info.kernelHandle = false → isKernelHandle handle = false)
      (hgranted : obpDecodeGrantedAccess grantedAccess =
        obpDecodeGrantedAccess (kphApplyObProtections w s.protection info).1) :
      ProtectionStep w s .silent
        (s.setTable holder (.ok (Function.update table handle (some
          ⟨info.object, grantedAccess, info.kernelHandle, info.operation, info.actor,
            (kphApplyObProtections w s.protection info).2⟩))))
  | close {s : ProtectionState π τ} {holder : π} {table : HandleTable π τ} (handle : Nat)
      (htable : s.handleTable holder = .ok table) :
      ProtectionStep w s .silent (s.setTable holder (.ok (Function.update table handle none)))
  /-- A process exits and its handle table is gone; a walk through it holds this off. -/
  | exit {s : ProtectionState π τ} (holder : π)
      (hwalk : ∀ target e next, s.enumeration target = some e → e.walk ≠ some (holder, next)) :
      ProtectionStep w s .silent (s.setTable holder (.error statusTooLate))

end

end SystemInformer.Driver
