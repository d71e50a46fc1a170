import SystemInformer.Base.Nt

/-!
# Tracking of processes and threads (`cid_tracking.c`)

A process and a thread that are tracked have a context object, and the CID table has an
entry with a reference to it. A thread context has a reference to the context of its
process, the back reference; while the thread is in the process's thread list the list has
a reference to it, and the process's `InitialThread` has another.

A step of a thread of the system is one operation on a table entry, the creation of an
object, or a critical section under `ThreadListLock`. `τ` are the threads that run the
notification routines and `κ` the addresses of context objects. An id goes through its
lifetimes one after the other, in each of them it is tracked and then untracked; the
notifications of different ids overlap in any way. Getting an entry of the table may fail
as long as it has not succeeded once. An object whose count has dropped to zero waits for
the worker of the deferred deletions, and the memory of a deleted object may be used for
another.

The context of the system process, to which `KphpSystemProcessContext` keeps one more
reference, is created before the notification routines run and never untracked; it is not
here.
-/

namespace SystemInformer.Driver

/-- `KphProcessContextType` and `KphThreadContextType`. -/
inductive ContextType where
  | process
  | thread
deriving DecidableEq

/-- The object that `KphpTrackContext` creates a context for: `pid` is the id of the process
of a thread. -/
structure TrackCall where
  type : ContextType
  id : Nat
  pid : Nat

/-- Where a thread is. `KphpLookupContext` is called by others and by
`KphpInitializeThreadContext`, for the call and the object it is creating. -/
inductive TrackPc (κ : Type) where
  | idle
  | lookupReference (creating : Option (TrackCall × κ)) (type : ContextType) (id : Nat)
  | lookupFound (creating : Option (TrackCall × κ)) (type : ContextType) (object : κ)
  /-- `KphpTrackContext`. -/
  | trackReference (call : TrackCall)
  | trackFound (call : TrackCall) (object : κ)
  | trackCreate (call : TrackCall)
  | threadJoin (call : TrackCall) (object process : κ)
  | trackAssign (call : TrackCall) (object : κ)
  /-- `KphpUntrackContext`. -/
  | untrackReference (type : ContextType) (id : Nat)
  | untrackFound (type : ContextType) (id : Nat) (object : κ)
  | untrackAssign (type : ContextType) (id : Nat) (object : Option κ)
  | untrackUnlink (type : ContextType) (id : Nat) (object : κ)

/-- Where an id is in its lifetime. -/
inductive CidLife (τ : Type) where
  | absent
  | tracking (t : τ)
  | tracked (type : ContextType)
  | untracking (type : ContextType) (t : τ)

structure TrackHeap (κ : Type) where
  entry : Nat → Option κ
  /-- The ids whose table entry was got before. -/
  entryGot : Nat → Bool
  live : Finset κ
  condemned : List κ
  pointerCount : κ → Nat
  type : κ → ContextType
  /-- `ProcessId`, `ClientId.UniqueThread`. -/
  id : κ → Nat
  processContext : κ → Option κ
  inThreadList : κ → Bool
  threadList : κ → List κ
  numberOfThreads : κ → Nat
  numberOfUnlinkedThreads : κ → Nat
  initialThread : κ → Option κ

structure TrackState (τ κ : Type) where
  heap : TrackHeap κ
  /-- The references that a thread owns, of its calls in progress and of its own. -/
  owned : τ → κ → Nat
  pc : τ → TrackPc κ
  life : Nat → CidLife τ

section

variable {τ κ : Type} [DecidableEq τ] [DecidableEq κ]

namespace TrackHeap

def kphReferenceObject (h : TrackHeap κ) (object : κ) : TrackHeap κ :=
  { h with pointerCount := Function.update h.pointerCount object (h.pointerCount object + 1) }

def kphDereferenceObject (h : TrackHeap κ) (object : κ) : TrackHeap κ :=
  let refCount := h.pointerCount object - 1
  { h with
    pointerCount := Function.update h.pointerCount object refCount
    condemned := if refCount = 0 then object :: h.condemned else h.condemned }

/-- `KphCreateObject`, with what the initialization sets before anything is shared. -/
def kphCreateObject (h : TrackHeap κ) (object : κ) (type : ContextType) (id : Nat) :
    TrackHeap κ :=
  { h with
    live := insert object h.live
    pointerCount := Function.update h.pointerCount object 1
    type := Function.update h.type object type
    id := Function.update h.id object id
    processContext := Function.update h.processContext object none
    inThreadList := Function.update h.inThreadList object false
    threadList := Function.update h.threadList object []
    numberOfThreads := Function.update h.numberOfThreads object 0
    numberOfUnlinkedThreads := Function.update h.numberOfUnlinkedThreads object 0
    initialThread := Function.update h.initialThread object none }

def setEntry (h : TrackHeap κ) (id : Nat) (object : Option κ) : TrackHeap κ :=
  { h with entry := Function.update h.entry id object }

def setInitialThread (h : TrackHeap κ) (process : κ) (thread : Option κ) : TrackHeap κ :=
  { h with initialThread := Function.update h.initialThread process thread }

def setProcessContext (h : TrackHeap κ) (thread process : κ) : TrackHeap κ :=
  { h with processContext := Function.update h.processContext thread (some process) }

/-- `InsertTailList`. -/
def insertThread (h : TrackHeap κ) (process thread : κ) : TrackHeap κ :=
  { h with
    threadList := Function.update h.threadList process (h.threadList process ++ [thread])
    numberOfThreads := Function.update h.numberOfThreads process (h.numberOfThreads process + 1)
    inThreadList := Function.update h.inThreadList thread true }

/-- `RemoveEntryList`, `RemoveHeadList`. -/
def removeThread (h : TrackHeap κ) (process thread : κ) : TrackHeap κ :=
  { h with
    threadList := Function.update h.threadList process ((h.threadList process).erase thread)
    numberOfThreads := Function.update h.numberOfThreads process (h.numberOfThreads process - 1)
    inThreadList := Function.update h.inThreadList thread false }

def kphCidAssignObject (h : TrackHeap κ) (id : Nat) (object : Option κ) : TrackHeap κ :=
  let referenced :=
    match object with
    | some object => h.kphReferenceObject object
    | none => h
  match h.entry id with
  | some previous => (referenced.setEntry id object).kphDereferenceObject previous
  | none => referenced.setEntry id object

/-- The critical section of `KphpInitializeThreadContext`. -/
def joinProcess (h : TrackHeap κ) (process thread : κ) : TrackHeap κ :=
  let h :=
    match h.initialThread process with
    | none => (h.setInitialThread process (some thread)).kphReferenceObject thread
    | some _ => h
  (h.insertThread process thread).kphReferenceObject thread

/-- The critical section of `KphUntrackThreadContext`. -/
def leaveProcess (h : TrackHeap κ) (process thread : κ) : TrackHeap κ :=
  let h :=
    if h.inThreadList thread then (h.removeThread process thread).kphDereferenceObject thread
    else h
  if h.initialThread process = some thread then
    (h.setInitialThread process none).kphDereferenceObject thread
  else h

/-- The loop of `KphpUnlinkProcessContextThreadContexts`; `n` is the length of the list. -/
def unlinkThreads (process : κ) : Nat → TrackHeap κ → TrackHeap κ
  | 0, h => h
  | n + 1, h =>
      match h.threadList process with
      | [] => h
      | thread :: _ =>
          let unlinked := Function.update h.numberOfUnlinkedThreads process
            (h.numberOfUnlinkedThreads process + 1)
          unlinkThreads process n
            ({ h.removeThread process thread with
              numberOfUnlinkedThreads := unlinked }.kphDereferenceObject thread)

def kphpUnlinkProcessContextThreadContexts (h : TrackHeap κ) (process : κ) : TrackHeap κ :=
  let h := unlinkThreads process (h.threadList process).length h
  match h.initialThread process with
  | some thread => (h.kphDereferenceObject thread).setInitialThread process none
  | none => h

/-- The deferred deletion of an object: `KphpDeleteThreadContext` gives the back reference
up. -/
def delete (h : TrackHeap κ) (object : κ) : TrackHeap κ :=
  let deleted :=
    { h with
      live := h.live.erase object
      condemned := h.condemned.erase object }
  match h.processContext object with
  | some process => deleted.kphDereferenceObject process
  | none => deleted

end TrackHeap

namespace TrackState

def goto (s : TrackState τ κ) (t : τ) (pc : TrackPc κ) : TrackState τ κ :=
  { s with pc := Function.update s.pc t pc }

def setOwned (s : TrackState τ κ) (t : τ) (object : κ) (n : Nat) : TrackState τ κ :=
  { s with owned := Function.update s.owned t (Function.update (s.owned t) object n) }

def take (s : TrackState τ κ) (t : τ) (object : κ) : TrackState τ κ :=
  { s with heap := s.heap.kphReferenceObject object }.setOwned t object (s.owned t object + 1)

def drop (s : TrackState τ κ) (t : τ) (object : κ) : TrackState τ κ :=
  { s with heap := s.heap.kphDereferenceObject object }.setOwned t object (s.owned t object - 1)

/-- The call is over, and the id has got to the next part of its lifetime. -/
def finish (s : TrackState τ κ) (t : τ) (id : Nat) (life : CidLife τ) : TrackState τ κ :=
  { s.goto t .idle with life := Function.update s.life id life }

/-- `KphpLookupContext` is over. -/
def lookedUp (s : TrackState τ κ) (t : τ) (creating : Option (TrackCall × κ))
    (object : Option κ) : TrackState τ κ :=
  match creating, object with
  | none, _ => s.goto t .idle
  | some (call, thread), none => s.goto t (.trackAssign call thread)
  | some (call, thread), some process =>
      -- The reference is the thread context's now.
      ({ s with heap := s.heap.setProcessContext thread process }.setOwned t process
        (s.owned t process - 1)).goto t (.threadJoin call thread process)

/-- `KphCidGetEntry` has got the entry of an id. -/
def gotEntry (s : TrackState τ κ) (id : Nat) : TrackState τ κ :=
  { s with heap := { s.heap with entryGot := Function.update s.heap.entryGot id true } }

/-- The next step of a thread; `found` tells whether `KphCidGetEntry` gets the entry, and
`alloc` is the object that `KphCreateObject` makes, if it makes one. -/
def advance (s : TrackState τ κ) (t : τ) (found : Bool) (alloc : Option κ) : TrackState τ κ :=
  match s.pc t with
  | .idle => s
  | .lookupReference creating type id =>
      if found then
        match s.heap.entry id with
        | some object =>
            ((s.gotEntry id).take t object).goto t (.lookupFound creating type object)
        | none => (s.gotEntry id).lookedUp t creating none
      else s.lookedUp t creating none
  | .lookupFound creating type object =>
      if s.heap.type object = type then s.lookedUp t creating (some object)
      else (s.drop t object).lookedUp t creating none
  | .trackReference call =>
      if found then
        match s.heap.entry call.id with
        | some object => ((s.gotEntry call.id).take t object).goto t (.trackFound call object)
        | none => (s.gotEntry call.id).goto t (.trackCreate call)
      else s.finish t call.id (.tracked call.type)
  | .trackFound call object =>
      if s.heap.type object = call.type then s.finish t call.id (.tracked call.type)
      else (s.drop t object).finish t call.id (.tracked call.type)
  | .trackCreate call =>
      match alloc with
      | none => s.finish t call.id (.tracked call.type)
      | some object =>
          let created :=
            { s with heap := s.heap.kphCreateObject object call.type call.id }.setOwned t object
              (s.owned t object + 1)
          match call.type with
          | .process => created.goto t (.trackAssign call object)
          | .thread => created.goto t (.lookupReference (some (call, object)) .process call.pid)
  | .threadJoin call thread process =>
      { s with heap := s.heap.joinProcess process thread }.goto t (.trackAssign call thread)
  | .trackAssign call object =>
      { s with heap := s.heap.kphCidAssignObject call.id (some object) }.finish t call.id
        (.tracked call.type)
  | .untrackReference type id =>
      if found then
        match s.heap.entry id with
        | some object => ((s.gotEntry id).take t object).goto t (.untrackFound type id object)
        | none => (s.gotEntry id).goto t (.untrackAssign type id none)
      else s.finish t id .absent
  | .untrackFound type id object =>
      if s.heap.type object = type then s.goto t (.untrackAssign type id (some object))
      else (s.drop t object).finish t id .absent
  | .untrackAssign type id object =>
      let s := { s with heap := s.heap.kphCidAssignObject id none }
      match object with
      | some object => s.goto t (.untrackUnlink type id object)
      | none => s.finish t id .absent
  | .untrackUnlink type id object =>
      let heap :=
        match type, s.heap.processContext object with
        | .process, _ => s.heap.kphpUnlinkProcessContextThreadContexts object
        | .thread, some process => s.heap.leaveProcess process object
        | .thread, none => s.heap
      { s with heap := heap }.finish t id .absent

end TrackState

/-- The id whose entry a thread is about to get. -/
def TrackPc.gets : TrackPc κ → Option Nat
  | .lookupReference _ _ id => some id
  | .trackReference call => some call.id
  | .untrackReference _ id => some id
  | _ => none

/-- A thread goes on, or calls a routine; or a condemned object is deleted. -/
inductive TrackStep : TrackState τ κ → TrackState τ κ → Prop where
  | advance {s : TrackState τ κ} (t : τ) (found : Bool) (alloc : Option κ)
      (hfound : ∀ id, (s.pc t).gets = some id → s.heap.entryGot id = true → found = true)
      (halloc : ∀ object, alloc = some object → object ∉ s.heap.live) :
      TrackStep s (s.advance t found alloc)
  | kphTrackContext {s : TrackState τ κ} (t : τ) (call : TrackCall) (hpc : s.pc t = .idle)
      (hlife : s.life call.id = .absent) :
      TrackStep s
        { s.goto t (.trackReference call) with
          life := Function.update s.life call.id (.tracking t) }
  | kphUntrackContext {s : TrackState τ κ} (t : τ) (type : ContextType) (id : Nat)
      (hpc : s.pc t = .idle) (hlife : s.life id = .tracked type) :
      TrackStep s
        { s.goto t (.untrackReference type id) with
          life := Function.update s.life id (.untracking type t) }
  | kphpLookupContext {s : TrackState τ κ} (t : τ) (type : ContextType) (id : Nat)
      (hpc : s.pc t = .idle) : TrackStep s (s.goto t (.lookupReference none type id))
  | kphReferenceObject {s : TrackState τ κ} (t : τ) (object : κ) (hpc : s.pc t = .idle)
      (howned : 0 < s.owned t object) : TrackStep s (s.take t object)
  | kphDereferenceObject {s : TrackState τ κ} (t : τ) (object : κ) (hpc : s.pc t = .idle)
      (howned : 0 < s.owned t object) : TrackStep s (s.drop t object)
  /-- `KphQueryInformationProcessContext` references the initial thread. -/
  | initialThread {s : TrackState τ κ} (t : τ) (process thread : κ) (hpc : s.pc t = .idle)
      (howned : 0 < s.owned t process) (hinitial : s.heap.initialThread process = some thread) :
      TrackStep s (s.take t thread)
  | delete {s : TrackState τ κ} (object : κ) (hmem : object ∈ s.heap.condemned) :
      TrackStep s { s with heap := s.heap.delete object }

/-- No context, and every entry empty. -/
def TrackState.start : TrackState τ κ where
  heap :=
    { entry := fun _ => none
      entryGot := fun _ => false
      live := ∅
      condemned := []
      pointerCount := fun _ => 0
      type := fun _ => .process
      id := fun _ => 0
      processContext := fun _ => none
      inThreadList := fun _ => false
      threadList := fun _ => []
      numberOfThreads := fun _ => 0
      numberOfUnlinkedThreads := fun _ => 0
      initialThread := fun _ => none }
  owned := fun _ _ => 0
  pc := fun _ => .idle
  life := fun _ => .absent

end

end SystemInformer.Driver
