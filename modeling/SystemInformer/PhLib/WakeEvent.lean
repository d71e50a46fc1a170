import Mathlib

/-!
# Wake events (`queuedlock.c`)

A wake event is one word with the wait blocks that are queued to it, as a singly linked list. A
thread queues its block, and later waits for the event or cancels the wait; a thread that sets the
event takes the whole list with one exchange, walks it and unblocks each block. A block has its
SPINNING flag until it is either unblocked or its owner goes to sleep on the keyed event of the
block, where an unblock and a wait meet.

Each interlocked operation, and each access to a block, is a step of its own. A thread has one
wait block, and a thread with several of them is several threads here. `alive` tells whether a
block is in use by its owner, from the call that queues it until the owner's wait, or its set for
the cancelled block, has returned. `strayed` records that a block was accessed that is not, and
`pushed` and `unblocked` count how often a block was queued and unblocked.
-/

namespace SystemInformer.PhLib

/-- What a thread does when it has unblocked the list: a thread that cancels a wait has its own
block to look after. -/
inductive AfterSet where
  | idle
  | queued
  | cancel
deriving DecidableEq

inductive WakePc (τ : Type) where
  | idle
  | queueRead
  | queueNext (value : Option τ)
  | queueExchange (value : Option τ)
  | queued
  | setExchange (after : AfterSet)
  | setNext (after : AfterSet) (waitBlock : Option τ)
  | setUnblock (after : AfterSet) (waitBlock : τ) (nextWaitBlock : Option τ)
  | setRelease (after : AfterSet) (waitBlock : τ) (nextWaitBlock : Option τ)
  | setCheck
  | spin (timeout : Bool)
  | block (timeout : Bool)
  | keyedWait (timeout : Bool)
deriving DecidableEq

structure WakeEvent (τ : Type) where
  value : Option τ
  next : τ → Option τ
  spinning : τ → Bool
  pc : τ → WakePc τ
  alive : τ → Bool
  pushed : τ → Nat
  unblocked : τ → Nat
  strayed : Bool

namespace WakeEvent

variable {τ : Type} [DecidableEq τ]

/-- `PhInitializeWakeEvent`, and nobody has queued a block. -/
def phInitializeWakeEvent : WakeEvent τ where
  value := none
  next := fun _ => none
  spinning := fun _ => false
  pc := fun _ => .idle
  alive := fun _ => false
  pushed := fun _ => 0
  unblocked := fun _ => 0
  strayed := false

def goto (s : WakeEvent τ) (t : τ) (pc : WakePc τ) : WakeEvent τ :=
  { s with pc := Function.update s.pc t pc }

def touch (s : WakeEvent τ) (b : τ) : WakeEvent τ :=
  { s with strayed := s.strayed || !s.alive b }

def clearSpinning (s : WakeEvent τ) (b : τ) : WakeEvent τ :=
  { s with spinning := Function.update s.spinning b false }

def countUnblock (s : WakeEvent τ) (b : τ) : WakeEvent τ :=
  { s with unblocked := Function.update s.unblocked b (s.unblocked b + 1) }

/-- The owner's call has returned, and the block goes. -/
def leave (s : WakeEvent τ) (t : τ) : WakeEvent τ :=
  { s with alive := Function.update s.alive t false }.goto t .idle

/-- The thread has unblocked the list. -/
def afterSet (s : WakeEvent τ) (t : τ) : AfterSet → WakeEvent τ
  | .idle => s.goto t .idle
  | .queued => s.goto t .queued
  | .cancel => s.goto t .setCheck

/-- `PhfQueueWakeEvent` is called; it sets the flags of the block. -/
def callQueue (s : WakeEvent τ) (t : τ) : WakeEvent τ :=
  { s with
    spinning := Function.update s.spinning t true
    alive := Function.update s.alive t true }.goto t .queueRead

/-- `PhfWaitForWakeEvent` is called. -/
def callWait (s : WakeEvent τ) (t : τ) (spin timeout : Bool) : WakeEvent τ :=
  s.goto t (if spin then .spin timeout else .block timeout)

/-- The next step of a thread; where it waits for another one, or may do several things, it is
left alone. -/
def advance (s : WakeEvent τ) (t : τ) : WakeEvent τ :=
  match s.pc t with
  | .idle => s
  | .queueRead => s.goto t (.queueNext s.value)
  | .queueNext value =>
      { s.touch t with next := Function.update s.next t value }.goto t (.queueExchange value)
  | .queueExchange value =>
      if s.value = value then
        { s with
          value := some t
          pushed := Function.update s.pushed t (s.pushed t + 1) }.goto t .queued
      else s.goto t (.queueNext s.value)
  | .queued => s
  | .setExchange after => { s with value := none }.goto t (.setNext after s.value)
  | .setNext after none => s.afterSet t after
  | .setNext after (some b) => (s.touch b).goto t (.setUnblock after b (s.next b))
  | .setUnblock after b next =>
      if s.spinning b then
        (((s.touch b).clearSpinning b).countUnblock b).goto t (.setNext after next)
      else (s.touch b).goto t (.setRelease after b next)
  | .setRelease _ _ _ => s
  | .setCheck =>
      if s.spinning t then (s.touch t).goto t (.block false) else (s.touch t).leave t
  | .spin _ => if s.spinning t then s.touch t else (s.touch t).leave t
  | .block timeout =>
      if s.spinning t then ((s.touch t).clearSpinning t).goto t (.keyedWait timeout)
      else (s.touch t).leave t
  | .keyedWait _ => s

/-- `NtReleaseKeyedEvent` of a thread that sets the event meets `NtWaitForKeyedEvent` of the owner
of a block. -/
def rendezvous (s : WakeEvent τ) (u : τ) (after : AfterSet) (b : τ) (next : Option τ) :
    WakeEvent τ :=
  ((s.countUnblock b).goto u (.setNext after next)).leave b

end WakeEvent

/-- Threads may call these functions as they like, but only with a block that is queued can they
wait or cancel. `PhSetWakeEvent` spares the call without a block when nothing is queued.
`mayTimeOut` tells whether a wait with a timeout may end without having been unblocked; then the
thread goes on with `PhSetWakeEvent` for its block. -/
inductive WakeEventStep {τ : Type} [DecidableEq τ] (mayTimeOut : Prop) :
    WakeEvent τ → WakeEvent τ → Prop where
  | advance {s : WakeEvent τ} (t : τ) : WakeEventStep mayTimeOut s (s.advance t)
  | queue {s : WakeEvent τ} (t : τ) (hpc : s.pc t = .idle) :
      WakeEventStep mayTimeOut s (s.callQueue t)
  | set {s : WakeEvent τ} (t : τ) (hpc : s.pc t = .idle) :
      WakeEventStep mayTimeOut s (s.goto t (.setExchange .idle))
  | setQueued {s : WakeEvent τ} (t : τ) (hpc : s.pc t = .queued) :
      WakeEventStep mayTimeOut s (s.goto t (.setExchange .queued))
  | cancel {s : WakeEvent τ} (t : τ) (hpc : s.pc t = .queued) :
      WakeEventStep mayTimeOut s (s.goto t (.setExchange .cancel))
  | wait {s : WakeEvent τ} (t : τ) (spin timeout : Bool) (hpc : s.pc t = .queued) :
      WakeEventStep mayTimeOut s (s.callWait t spin timeout)
  | stopSpinning {s : WakeEvent τ} (t : τ) (timeout : Bool) (hpc : s.pc t = .spin timeout) :
      WakeEventStep mayTimeOut s (s.goto t (.block timeout))
  | rendezvous {s : WakeEvent τ} (u : τ) (after : AfterSet) (b : τ) (next : Option τ)
      (timeout : Bool) (hrelease : s.pc u = .setRelease after b next)
      (hwait : s.pc b = .keyedWait timeout) :
      WakeEventStep mayTimeOut s (s.rendezvous u after b next)
  | timeout {s : WakeEvent τ} (t : τ) (hpc : s.pc t = .keyedWait true) (hmay : mayTimeOut) :
      WakeEventStep mayTimeOut s (s.goto t (.setExchange .cancel))

end SystemInformer.PhLib
