import SystemInformer.Base.Words

/-!
# Work queues (`workqueue.c`)

Callers queue items, and worker threads take them off and execute them. A caller that finds
all workers busy creates another one; a worker that has waited in vain for a while gives up.
When the queue is deleted the workers are told to terminate, and what is left on the queue is
destroyed unexecuted.

What is done under a lock is one step, and so is each read without a lock, each operation on
the semaphore and each call of a function of an item. Workers are numbered in the order of
their creation. `queued` has all items that were ever inserted, `taken` those that have left the
queue, `called` and `deleted` those whose function or delete function was called and `freed`
those that were destroyed; none of these is part of the program. Creating a thread succeeds.
-/

namespace SystemInformer.PhLib

/-- An item; `id` tells items apart, and `deleteFunction` whether it has one. -/
structure WorkQueueItem where
  id : Nat
  deleteFunction : Bool
deriving DecidableEq

/-- Where a caller of `PhQueueItemWorkQueueEx` is. -/
inductive QueuePc where
  | idle
  | getSemaphore
  | releaseSemaphore
  | readBusyCount
  | readCurrentThreads (busyCount : ULong)
  | readLimit
  | createThread
deriving DecidableEq

/-- Where a worker is in `PhpWorkQueueThreadStart`. -/
inductive WorkerPc where
  | checkLimit
  | overLimit
  | getSemaphore
  | checkTerminating
  | wait
  | woken
  | dequeue
  | execute (item : WorkQueueItem)
  | finish (item : WorkQueueItem)
  | destroy (item : WorkQueueItem)
  | giveUp
  | release
  | exited
deriving DecidableEq

/-- Where `PhDeleteWorkQueue` is. -/
inductive DeletePc where
  | notCalled
  | releaseSemaphore
  | beginRundown
  | waitForRundown
  | drain (items : List WorkQueueItem)
  | returned
deriving DecidableEq

structure WorkQueueRundown where
  references : Nat
  active : Bool

structure WorkQueueState (κ : Type) where
  rundownProtect : WorkQueueRundown
  terminating : Bool
  queueListHead : List WorkQueueItem
  semaphoreHandle : Option Nat
  currentThreads : ULong
  busyCount : ULong
  caller : κ → QueuePc
  workers : List WorkerPc
  deleter : DeletePc
  queued : List WorkQueueItem
  taken : List WorkQueueItem
  called : List WorkQueueItem
  deleted : List WorkQueueItem
  freed : List WorkQueueItem

namespace WorkQueueState

variable {κ : Type} [DecidableEq κ]

def phInitializeWorkQueue : WorkQueueState κ where
  rundownProtect := ⟨0, false⟩
  terminating := false
  queueListHead := []
  semaphoreHandle := none
  currentThreads := 0
  busyCount := 0
  caller := fun _ => .idle
  workers := []
  deleter := .notCalled
  queued := []
  taken := []
  called := []
  deleted := []
  freed := []

def callerTo (s : WorkQueueState κ) (c : κ) (pc : QueuePc) : WorkQueueState κ :=
  { s with caller := Function.update s.caller c pc }

def workerTo (s : WorkQueueState κ) (i : Nat) (pc : WorkerPc) : WorkQueueState κ :=
  { s with workers := s.workers.set i pc }

/-- `PhpGetSemaphoreWorkQueue`: who loses the race closes the semaphore it has created. -/
def phpGetSemaphoreWorkQueue (s : WorkQueueState κ) : WorkQueueState κ :=
  { s with semaphoreHandle := some (s.semaphoreHandle.getD 0) }

/-- The semaphore does not count beyond `MAXLONG`. -/
def ntReleaseSemaphore (s : WorkQueueState κ) (releaseCount : Nat) : WorkQueueState κ :=
  { s with
    semaphoreHandle := s.semaphoreHandle.map fun count =>
      if count + releaseCount ≤ 0x7fffffff then count + releaseCount else count }

def phpDestroyWorkQueueItem (s : WorkQueueState κ) (item : WorkQueueItem) : WorkQueueState κ :=
  { s with
    deleted := if item.deleteFunction then item :: s.deleted else s.deleted
    freed := item :: s.freed }

def phpCreateWorkQueueThread (s : WorkQueueState κ) : WorkQueueState κ :=
  if s.rundownProtect.active then s
  else
    { s with
      rundownProtect := { s.rundownProtect with references := s.rundownProtect.references + 1 }
      workers := s.workers ++ [.checkLimit]
      currentThreads := s.currentThreads + 1 }

def insertTail (s : WorkQueueState κ) (c : κ) (deleteFunction : Bool) : WorkQueueState κ :=
  let item : WorkQueueItem := ⟨s.queued.length, deleteFunction⟩
  { s with
    queueListHead := s.queueListHead ++ [item]
    busyCount := s.busyCount + 1
    queued := s.queued ++ [item] }.callerTo c .getSemaphore

/-- The next step of `PhQueueItemWorkQueueEx`, after the item was inserted. -/
def phQueueItemWorkQueueEx (maximumThreads : ULong) (s : WorkQueueState κ) (c : κ) :
    WorkQueueState κ :=
  match s.caller c with
  | .idle => s
  | .getSemaphore => s.phpGetSemaphoreWorkQueue.callerTo c .releaseSemaphore
  | .releaseSemaphore => (s.ntReleaseSemaphore 1).callerTo c .readBusyCount
  | .readBusyCount => s.callerTo c (.readCurrentThreads s.busyCount)
  | .readCurrentThreads busyCount =>
      s.callerTo c (if s.currentThreads ≤ busyCount then .readLimit else .idle)
  | .readLimit => s.callerTo c (if s.currentThreads < maximumThreads then .createThread else .idle)
  | .createThread =>
      (if s.currentThreads < maximumThreads then s.phpCreateWorkQueueThread else s).callerTo c .idle

/-- The next step of `PhpWorkQueueThreadStart`, but for the wait. -/
def phpWorkQueueThreadStart (minimumThreads maximumThreads : ULong) (s : WorkQueueState κ)
    (i : Nat) : WorkQueueState κ :=
  match s.workers[i]? with
  | none => s
  | some .checkLimit =>
      s.workerTo i (if maximumThreads < s.currentThreads then .overLimit else .getSemaphore)
  | some .overLimit =>
      if maximumThreads < s.currentThreads ∧ minimumThreads < s.currentThreads then
        { s with currentThreads := s.currentThreads - 1 }.workerTo i .release
      else s.workerTo i .getSemaphore
  | some .getSemaphore => s.phpGetSemaphoreWorkQueue.workerTo i .checkTerminating
  | some .checkTerminating => s.workerTo i (if s.terminating then .giveUp else .wait)
  | some .wait => s
  | some .woken => s.workerTo i (if s.terminating then .giveUp else .dequeue)
  | some .dequeue =>
      match s.queueListHead with
      | [] => s.workerTo i .checkLimit
      | item :: items =>
          { s with queueListHead := items, taken := s.taken ++ [item] }.workerTo i (.execute item)
  | some (.execute item) => { s with called := item :: s.called }.workerTo i (.finish item)
  | some (.finish item) => { s with busyCount := s.busyCount - 1 }.workerTo i (.destroy item)
  | some (.destroy item) => (s.phpDestroyWorkQueueItem item).workerTo i .checkLimit
  | some .giveUp =>
      if s.terminating ∨ minimumThreads < s.currentThreads then
        { s with currentThreads := s.currentThreads - 1 }.workerTo i .release
      else s.workerTo i .checkLimit
  | some .release =>
      { s with
        rundownProtect :=
          { s.rundownProtect with references := s.rundownProtect.references - 1 } }.workerTo i .exited
  | some .exited => s

/-- The next step of `PhDeleteWorkQueue`. -/
def phDeleteWorkQueue (s : WorkQueueState κ) : WorkQueueState κ :=
  match s.deleter with
  | .notCalled => { s with terminating := true, deleter := .releaseSemaphore }
  | .releaseSemaphore =>
      { s.ntReleaseSemaphore s.currentThreads.toNat with deleter := .beginRundown }
  | .beginRundown =>
      { s with rundownProtect := { s.rundownProtect with active := true }, deleter := .waitForRundown }
  | .waitForRundown =>
      if s.rundownProtect.references = 0 then { s with deleter := .drain s.queueListHead } else s
  | .drain [] => { s with deleter := .returned }
  | .drain (item :: items) =>
      { s.phpDestroyWorkQueueItem item with taken := s.taken ++ [item], deleter := .drain items }
  | .returned => s

end WorkQueueState

/-- The worker has taken an item that is still counted as busy. -/
def WorkerPc.executes : WorkerPc → Bool
  | .execute _ => true
  | .finish _ => true
  | _ => false

section

variable {κ : Type} [DecidableEq κ]

def WorkQueueState.busy (s : WorkQueueState κ) : Nat :=
  s.queueListHead.length + s.workers.countP WorkerPc.executes

/-- The steps of the callers, of the workers and of the thread that deletes the queue.
`mayDelete` tells whether there is such a thread, `allowed` which workers may go on, and `room`
how many items there may be before one is inserted. A wait may time out whenever the count of
the semaphore is zero. -/
inductive WorkQueueStep (minimumThreads maximumThreads : ULong) (mayDelete : Prop)
    (allowed : WorkQueueState κ → Nat → Prop) (room : Nat → Prop) :
    WorkQueueState κ → WorkQueueState κ → Prop where
  | insert {s : WorkQueueState κ} (c : κ) (deleteFunction : Bool) (hidle : s.caller c = .idle)
      (hdeleter : s.deleter = .notCalled) (hroom : room s.busy) :
      WorkQueueStep minimumThreads maximumThreads mayDelete allowed room s
        (s.insertTail c deleteFunction)
  | caller {s : WorkQueueState κ} (c : κ) :
      WorkQueueStep minimumThreads maximumThreads mayDelete allowed room s
        (s.phQueueItemWorkQueueEx maximumThreads c)
  | worker {s : WorkQueueState κ} (i : Nat) (hallowed : allowed s i) :
      WorkQueueStep minimumThreads maximumThreads mayDelete allowed room s
        (s.phpWorkQueueThreadStart minimumThreads maximumThreads i)
  | wake {s : WorkQueueState κ} (i count : Nat) (hwait : s.workers[i]? = some .wait)
      (hcount : s.semaphoreHandle = some (count + 1)) :
      WorkQueueStep minimumThreads maximumThreads mayDelete allowed room s
        ({ s with semaphoreHandle := some count }.workerTo i .woken)
  | timeout {s : WorkQueueState κ} (i : Nat) (hwait : s.workers[i]? = some .wait)
      (hzero : s.semaphoreHandle = some 0) :
      WorkQueueStep minimumThreads maximumThreads mayDelete allowed room s (s.workerTo i .giveUp)
  | delete {s : WorkQueueState κ} (hmay : mayDelete) :
      WorkQueueStep minimumThreads maximumThreads mayDelete allowed room s s.phDeleteWorkQueue

end

/-! ## Waiting for a work queue

Threads wait until the list of a work queue is empty. A waiter looks at the list with the queue
lock held, and gives the lock up for the time of its wait. A worker that leaves the list empty
pulses the condition, with the lock held too, which wakes one of those that wait, whichever has
come first; here it may be any.

A look of a waiter is one step, like what a worker does under the lock. A waiter is given the
items that had been queued when it called, which the program does not keep. -/

/-- Where a thread is in `PhWaitForWorkQueue`; `before` has the items queued before its call. -/
inductive QueueWaiterPc where
  | idle
  | check (before : List WorkQueueItem)
  | waiting (before : List WorkQueueItem)
  | returned (before : List WorkQueueItem)
deriving DecidableEq

structure WorkQueueWaits (κ ω : Type) where
  queue : WorkQueueState κ
  waiter : ω → QueueWaiterPc

namespace WorkQueueWaits

variable {κ ω : Type} [DecidableEq ω]

def start : WorkQueueWaits κ ω := ⟨.phInitializeWorkQueue, fun _ => .idle⟩

def waiterTo (s : WorkQueueWaits κ ω) (w : ω) (pc : QueueWaiterPc) : WorkQueueWaits κ ω :=
  { s with waiter := Function.update s.waiter w pc }

/-- `PhWaitForWorkQueue` looks at the list. -/
def phWaitForWorkQueue (s : WorkQueueWaits κ ω) (w : ω) (before : List WorkQueueItem) :
    WorkQueueWaits κ ω :=
  s.waiterTo w (if s.queue.queueListHead = [] then .returned before else .waiting before)

/-- `PhPulseCondition` on `QueueEmptyCondition`. -/
inductive PhPulseCondition (s : WorkQueueWaits κ ω) : WorkQueueWaits κ ω → Prop where
  | wake (w : ω) (before : List WorkQueueItem) (hwaiting : s.waiter w = .waiting before) :
      PhPulseCondition s (s.waiterTo w (.check before))
  | nobody (hnobody : ∀ w before, s.waiter w ≠ .waiting before) : PhPulseCondition s s

end WorkQueueWaits

/-- The steps of a work queue and of those that wait for it. `allowed` tells which waiters may
look. -/
inductive WorkQueueWaitStep {κ ω : Type} [DecidableEq κ] [DecidableEq ω]
    (minimumThreads maximumThreads : ULong)
    (allowed : WorkQueueWaits κ ω → List WorkQueueItem → Prop) :
    WorkQueueWaits κ ω → WorkQueueWaits κ ω → Prop where
  | queue {s : WorkQueueWaits κ ω} {queue : WorkQueueState κ}
      (hstep : WorkQueueStep minimumThreads maximumThreads True
        (fun queue i => queue.workers[i]? ≠ some .dequeue) (fun _ => True) s.queue queue) :
      WorkQueueWaitStep minimumThreads maximumThreads allowed s { s with queue := queue }
  | dequeue {s s' : WorkQueueWaits κ ω} (i : Nat) (hpc : s.queue.workers[i]? = some .dequeue)
      (hpulse : let s₁ : WorkQueueWaits κ ω := { s with
          queue := s.queue.phpWorkQueueThreadStart minimumThreads maximumThreads i }
        if s₁.queue.queueListHead = [] then s₁.PhPulseCondition s' else s' = s₁) :
      WorkQueueWaitStep minimumThreads maximumThreads allowed s s'
  | call {s : WorkQueueWaits κ ω} (w : ω)
      (hpc : s.waiter w = .idle ∨ ∃ before, s.waiter w = .returned before) :
      WorkQueueWaitStep minimumThreads maximumThreads allowed s
        (s.waiterTo w (.check s.queue.queued))
  | check {s : WorkQueueWaits κ ω} (w : ω) (before : List WorkQueueItem)
      (hpc : s.waiter w = .check before) (hallowed : allowed s before) :
      WorkQueueWaitStep minimumThreads maximumThreads allowed s (s.phWaitForWorkQueue w before)

end SystemInformer.PhLib
