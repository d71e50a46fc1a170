import SystemInformer.Base.Nt

/-!
# Asynchronous messages (`comms.c`)

`KphCommsSendNPagedMessageAsync` and `KphpCommsSendMessageAsync` put a message into a queue
item, and the threads of `KphpMessageQueueThread` send and free what is in the queue.
`KphCommsStop` waits for the rundown, takes what is left of the queue, waits for the
threads and sends and frees the rest itself.

`τ` are the threads that send, `ω` the queue's threads, `μ` the messages that are passed and
`ι` the addresses of queue items. A message is told from others even when it gets memory
that another had. The rundown is the list of those that hold it; once `KphWaitForRundown`
was called nobody acquires it. An item that is put into the queue while a thread waits for
one is taken out of it by that thread. `KeRundownQueue` answers the entries that are left
as a circular list without a head; from then on `KeRemoveQueue` answers
`STATUS_ABANDONED`. The other statuses of `KeRemoveQueue` make the thread ask again and are
left out.
-/

namespace SystemInformer.Driver

/-- `KPHM_QUEUE_ITEM`, and before there is an item what will be in it. -/
structure QueueItem (μ : Type) where
  message : μ
  nonPaged : Bool
  targetClientProcess : Option Nat

inductive ItemPhase where
  | kphpCommsSendMessage
  | freeMessage
  | freeItem
  deriving DecidableEq

/-- Where `KphCommsSendNPagedMessageAsync` or `KphpCommsSendMessageAsync` is. -/
inductive SenderPc (μ ι : Type) where
  | idle
  | kphAcquireRundown (item : QueueItem μ)
  | dropNoRundown (item : QueueItem μ)
  | kphpAllocateMessageQueueItem (item : QueueItem μ)
  | dropNoItem (item : QueueItem μ)
  | keInsertQueue (entry : ι)
  | kphReleaseRundown

/-- Where `KphpMessageQueueThread` is. -/
inductive WorkerPc (ι : Type) where
  | keRemoveQueue
  | item (phase : ItemPhase) (entry : ι)
  | terminated
  deriving DecidableEq

/-- Where `KphCommsStop` is. -/
inductive StopPc (ω ι : Type) where
  | notCalled
  | kphWaitForRundown
  | keRundownQueue
  | keWaitForSingleObject (entry : Option ι) (threads : List ω)
  | drain (phase : ItemPhase) (item entry first : ι)
  | deleteLookasides
  | returned

inductive FreeReason where
  | noRundown
  | noItem
  | sent
  deriving DecidableEq

inductive CommsEvent (μ : Type) where
  | kphpCommsSendMessage (message : μ) (targetClientProcess : Option Nat)
  | free (message : μ) (nonPaged : Bool) (reason : FreeReason)
  deriving DecidableEq

structure CommsState (τ ω μ ι : Type) where
  sender : τ → SenderPc μ ι
  worker : ω → WorkerPc ι
  stop : StopPc ω ι
  /-- `KphWaitForRundown` was called. -/
  closing : Bool
  holders : List τ
  queue : List ι
  /-- `KeRundownQueue` was called. -/
  abandoned : Bool
  /-- What `KeRundownQueue` left linked. -/
  chain : List ι
  item : ι → Option (QueueItem μ)
  passed : List μ
  /-- What happened before and after `KphCommsStop` returned. -/
  events : List (CommsEvent μ)
  lateEvents : List (CommsEvent μ)

section

variable {τ ω μ ι : Type} [DecidableEq τ] [DecidableEq ω] [DecidableEq ι]

namespace CommsState

def setSender (s : CommsState τ ω μ ι) (t : τ) (pc : SenderPc μ ι) : CommsState τ ω μ ι :=
  { s with sender := Function.update s.sender t pc }

def setWorker (s : CommsState τ ω μ ι) (w : ω) (pc : WorkerPc ι) : CommsState τ ω μ ι :=
  { s with worker := Function.update s.worker w pc }

def setItem (s : CommsState τ ω μ ι) (i : ι) (content : Option (QueueItem μ)) :
    CommsState τ ω μ ι :=
  { s with item := Function.update s.item i content }

def record (s : CommsState τ ω μ ι) (event : CommsEvent μ) : CommsState τ ω μ ι :=
  match s.stop with
  | .returned => { s with lateEvents := s.lateEvents ++ [event] }
  | _ => { s with events := s.events ++ [event] }

/-- The routine that frees a message is the one of its pool: `KphFreeNPagedMessage` or
`KphFreeMessage`. -/
def kphFreeMessage (s : CommsState τ ω μ ι) (item : QueueItem μ) (nonPaged : Bool)
    (reason : FreeReason) : CommsState τ ω μ ι :=
  s.record (.free item.message nonPaged reason)

/-- A sender goes on; `allocated` is what the allocation of an item answers. The two send
functions are the same but for the routine that frees the message. -/
def senderStep (s : CommsState τ ω μ ι) (t : τ) (allocated : Option ι) : CommsState τ ω μ ι :=
  match s.sender t with
  | .idle => s
  | .kphAcquireRundown item =>
      if s.closing then s.setSender t (.dropNoRundown item)
      else { s with holders := t :: s.holders }.setSender t (.kphpAllocateMessageQueueItem item)
  | .dropNoRundown item => (s.kphFreeMessage item item.nonPaged .noRundown).setSender t .idle
  | .kphpAllocateMessageQueueItem item =>
      match allocated with
      | none => s.setSender t (.dropNoItem item)
      | some entry => (s.setItem entry (some item)).setSender t (.keInsertQueue entry)
  | .dropNoItem item => (s.kphFreeMessage item item.nonPaged .noItem).setSender t .kphReleaseRundown
  | .keInsertQueue entry =>
      { s with queue := s.queue ++ [entry] }.setSender t .kphReleaseRundown
  | .kphReleaseRundown => { s with holders := s.holders.erase t }.setSender t .idle

/-- One step of a thread that has an item, up to what it does next. -/
def itemStep (s : CommsState τ ω μ ι) (entry : ι) (item : QueueItem μ) :
    ItemPhase → CommsState τ ω μ ι
  | .kphpCommsSendMessage =>
      s.record (.kphpCommsSendMessage item.message item.targetClientProcess)
  | .freeMessage => s.kphFreeMessage item item.nonPaged .sent
  | .freeItem => s.setItem entry none

end CommsState

/-- The phase after a phase, if the item is still there. -/
def ItemPhase.next : ItemPhase → Option ItemPhase
  | .kphpCommsSendMessage => some .freeMessage
  | .freeMessage => some .freeItem
  | .freeItem => none

/-- `Flink` of the entries that `KeRundownQueue` answered. -/
def flink (chain : List ι) (entry : ι) : ι :=
  chain.getD ((chain.idxOf entry + 1) % chain.length) entry

namespace CommsState

/-- A queue thread goes on, unless it waits for an entry. -/
def workerStep (s : CommsState τ ω μ ι) (w : ω) : Option (CommsState τ ω μ ι) :=
  match s.worker w with
  | .keRemoveQueue =>
      if s.abandoned then some (s.setWorker w .terminated)
      else match s.queue with
        | [] => none
        | entry :: rest =>
            some ({ s with queue := rest }.setWorker w (.item .kphpCommsSendMessage entry))
  | .item phase entry =>
      (s.item entry).map fun item =>
        (s.itemStep entry item phase).setWorker w (phase.next.elim .keRemoveQueue (.item · entry))
  | .terminated => none

/-- The head of the drain loop: `Flink` is read before the item is freed. -/
def drainFrom (s : CommsState τ ω μ ι) (entry first : ι) : CommsState τ ω μ ι :=
  { s with stop := .drain .kphpCommsSendMessage entry (flink s.chain entry) first }

/-- `KphCommsStop` goes on, unless it waits; `threads` are the queue's threads. -/
def stopStep (s : CommsState τ ω μ ι) (threads : List ω) : Option (CommsState τ ω μ ι) :=
  match s.stop with
  | .notCalled => some { s with closing := true, stop := .kphWaitForRundown }
  | .kphWaitForRundown =>
      if s.holders = [] then some { s with stop := .keRundownQueue } else none
  | .keRundownQueue =>
      some { s with
        abandoned := true
        chain := s.queue
        queue := []
        stop := .keWaitForSingleObject s.queue.head? threads }
  | .keWaitForSingleObject entry (w :: rest) =>
      if s.worker w = .terminated then
        some { s with stop := .keWaitForSingleObject entry rest }
      else none
  | .keWaitForSingleObject none [] => some { s with stop := .deleteLookasides }
  | .keWaitForSingleObject (some first) [] => some (s.drainFrom first first)
  | .drain phase item entry first =>
      (s.item item).map fun content =>
        let s := s.itemStep item content phase
        match phase.next with
        | some next => { s with stop := .drain next item entry first }
        | none =>
            if entry ≠ first then s.drainFrom entry first
            else { s with stop := .deleteLookasides }
  | .deleteLookasides => some { s with stop := .returned }
  | .returned => none

end CommsState

/-- A step of the system: a message is passed to the function of its pool, or somebody goes
on. -/
inductive CommsStep (nonPaged : μ → Bool) (threads : List ω) :
    CommsState τ ω μ ι → CommsState τ ω μ ι → Prop where
  | send {s : CommsState τ ω μ ι} (t : τ) (message : μ) (targetClientProcess : Option Nat)
      (hidle : s.sender t = .idle) (hnew : message ∉ s.passed) :
      CommsStep nonPaged threads s
        ({ s with passed := message :: s.passed }.setSender t
          (.kphAcquireRundown ⟨message, nonPaged message, targetClientProcess⟩))
  | sender {s : CommsState τ ω μ ι} (t : τ) (allocated : Option ι)
      (hfree : ∀ entry ∈ allocated, s.item entry = none) :
      CommsStep nonPaged threads s (s.senderStep t allocated)
  | worker {s s' : CommsState τ ω μ ι} (w : ω) (h : s.workerStep w = some s') :
      CommsStep nonPaged threads s s'
  | stop {s s' : CommsState τ ω μ ι} (h : s.stopStep threads = some s') :
      CommsStep nonPaged threads s s'

/-- `KphCommsStart` has created the threads. -/
def CommsState.start (threads : List ω) : CommsState τ ω μ ι where
  sender _ := .idle
  worker w := if w ∈ threads then .keRemoveQueue else .terminated
  stop := .notCalled
  closing := false
  holders := []
  queue := []
  abandoned := false
  chain := []
  item _ := none
  passed := []
  events := []
  lateEvents := []

end

end SystemInformer.Driver
