import SystemInformer.Driver.CidTable
import SystemInformer.Driver.CidTracking

/-!
# Populating the tracking (`cid_tracking.c`)

`KphCidPopulate` asks for a snapshot of the processes and tracks each process and thread of
it that has not exited. What a lookup, an exit test or an allocation answers for an item of
the snapshot is a field of the item; calls that are not made have no say.

The table of contexts is told by the ids it has entries for, in the order in which
`KphCidEnumerate` goes through them. A reference that the table keeps is not in the trace,
which has the references that the function takes and gives back.
-/

namespace SystemInformer.Driver

/-! ## Contexts -/

/-- A context, told from others by the number of its creation, and what it is for. -/
structure CidContext where
  number : Nat
  type : ContextType
  cid : UInt64
  object : Nat
  deriving DecidableEq

abbrev ContextTable := Fin cidMax → Option CidContext

/-- An object of the system, or a context. -/
inductive PopulateObject where
  | object (n : Nat)
  | context (number : Nat)
  deriving DecidableEq

inductive ReferenceEvent where
  | reference (o : PopulateObject)
  | dereference (o : PopulateObject)
  deriving DecidableEq

/-- The allocations of one `KphpTrackContext`: whether `KphCidGetEntry` could expand the
table if it had to, and what `KphCreateObject` answers. -/
structure TrackEnv where
  getEntry : Bool
  createObject : NtStatus

structure PopulateState where
  table : ContextTable
  created : Nat
  status : NtStatus
  trace : List ReferenceEvent

namespace PopulateState

def reference (s : PopulateState) (o : PopulateObject) : PopulateState :=
  { s with trace := s.trace ++ [.reference o] }

def dereference (s : PopulateState) (o : PopulateObject) : PopulateState :=
  { s with trace := s.trace ++ [.dereference o] }

def setStatus (s : PopulateState) (status : NtStatus) : PopulateState :=
  { s with status := status }

/-- `KphCreateObject`, which leaves the creator a reference, and `KphCidAssignObject`. -/
def createContext (s : PopulateState) (id : Fin cidMax) (context : CidContext) :
    PopulateState :=
  { s with
    table := Function.update s.table id (some context)
    created := s.created + 1
    trace := s.trace ++ [.reference (.context context.number)] }

end PopulateState

/-- `KphCidGetEntry`. -/
def getCidEntry (cid : UInt64) (env : TrackEnv) : Option (Fin cidMax) :=
  if h : kphpCidToId cid.toNat < cidMax then
    if env.getEntry then some ⟨kphpCidToId cid.toNat, h⟩ else none
  else none

def kphpTrackContext (s : PopulateState) (cid : UInt64) (type : ContextType) (object : Nat)
    (env : TrackEnv) : PopulateState × Option CidContext :=
  match getCidEntry cid env with
  | none => (s, none)
  | some id =>
      match s.table id with
      | some context =>
          if context.type ≠ type then
            ((s.reference (.context context.number)).dereference (.context context.number), none)
          else (s.reference (.context context.number), some context)
      | none =>
          if ¬ ntSuccess env.createObject then (s, none)
          else
            let context := ⟨s.created, type, cid, object⟩
            (s.createContext id context, some context)

/-! ## The snapshot -/

structure ThreadSnapshot where
  uniqueThread : UInt64
  lookup : NtStatus
  object : Nat
  terminating : Bool
  track : TrackEnv

structure ProcessSnapshot where
  uniqueProcessId : UInt64
  lookup : NtStatus
  object : Nat
  wait : NtStatus
  track : TrackEnv
  threads : List ThreadSnapshot

def populateThread (s : PopulateState) (t : ThreadSnapshot) : PopulateState :=
  let s := s.setStatus t.lookup
  if ¬ ntSuccess s.status then s
  else
    let s := s.reference (.object t.object)
    if t.terminating then s.dereference (.object t.object)
    else
      let r := kphpTrackContext s t.uniqueThread .thread t.object t.track
      let s := r.1.dereference (.object t.object)
      match r.2 with
      | none => s
      | some thread => s.dereference (.context thread.number)

/-- The rest of a turn, with the process referenced. -/
def populateProcessObject (s : PopulateState) (p : ProcessSnapshot) : PopulateState :=
  let r := kphpTrackContext s p.uniqueProcessId .process p.object p.track
  let s := r.1.dereference (.object p.object)
  match r.2 with
  | none => s
  | some process =>
      (p.threads.foldl populateThread s).dereference (.context process.number)

/-- One turn of the loop over the processes; `system` is the id of the system process. -/
def populateProcess (system : UInt64) (s : PopulateState) (p : ProcessSnapshot) :
    PopulateState :=
  if p.uniqueProcessId = 0 then s
  else if p.uniqueProcessId = system then
    populateProcessObject (s.reference (.object p.object)) p
  else
    let s := s.setStatus p.lookup
    if ¬ ntSuccess s.status then s
    else
      let s := (s.reference (.object p.object)).setStatus p.wait
      if s.status ≠ statusTimeout then s.dereference (.object p.object)
      else populateProcessObject s p

/-! ## `KphCidPopulate` -/

/-- A call of `ZwQuerySystemInformation`: its status, the size it stored, and whether the
allocation of a buffer of that size is successful. -/
structure QueryAttempt where
  status : NtStatus
  size : UInt32
  allocate : Bool

/-- The loop that gets the snapshot: the status it is left with; none if it is not left
with these attempts. -/
def querySnapshot : List QueryAttempt → Option NtStatus
  | [] => none
  | attempt :: rest =>
      if ntSuccess attempt.status then some attempt.status
      else if attempt.status ≠ statusBufferTooSmall ∧
          attempt.status ≠ statusInfoLengthMismatch then some attempt.status
      else if attempt.size = 0 then some attempt.status
      else if attempt.allocate = false then some statusInsufficientResources
      else querySnapshot rest

structure PopulateEnv where
  allocate : Bool
  attempts : List QueryAttempt
  /-- `PsGetProcessId(PsInitialSystemProcess)`. -/
  systemProcessId : UInt64
  snapshot : List ProcessSnapshot

structure Tracking where
  table : ContextTable
  created : Nat
  /-- `KphpCidTrackingInitialized` and `KphpCidPopulated`. -/
  initialized : Bool
  populated : Bool

def Tracking.kphCidMarkPopulated (t : Tracking) : Tracking :=
  if t.initialized = false then t else { t with populated := true }

/-- The contexts of a table in the order of `KphCidEnumerate`. -/
def ContextTable.contexts (table : ContextTable) : List CidContext :=
  (List.finRange cidMax).filterMap table

/-- `KphpCidEnumPostPopulate`: the process that is verified and protected, if any. -/
def kphpCidEnumPostPopulate (context : CidContext) : Option CidContext :=
  if context.type = .process then some context else none

/-- What a call leaves: its status, the tracking, the trace of its references, and the
processes it verified and protected. -/
structure PopulateResult where
  status : NtStatus
  tracking : Tracking
  trace : List ReferenceEvent
  verified : List CidContext

/-- From `Exit` on. -/
def populateExit (t : Tracking) (status : NtStatus) (trace : List ReferenceEvent) :
    PopulateResult where
  status := status
  tracking := t.kphCidMarkPopulated
  trace := trace
  verified :=
    if ntSuccess status then t.table.contexts.filterMap kphpCidEnumPostPopulate else []

/-- `KphCidPopulate`; none while the snapshot is still being asked for. -/
def kphCidPopulate (t : Tracking) (env : PopulateEnv) : Option PopulateResult :=
  if env.allocate = false then some (populateExit t statusInsufficientResources [])
  else
    match querySnapshot env.attempts with
    | none => none
    | some status =>
        if ¬ ntSuccess status then some (populateExit t status [])
        else
          let s := env.snapshot.foldl (populateProcess env.systemProcessId)
            ⟨t.table, t.created, status, []⟩
          some (populateExit { t with table := s.table, created := s.created } s.status s.trace)

end SystemInformer.Driver
