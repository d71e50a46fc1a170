import SystemInformer.Base.Words
import SystemInformer.Lib.BitField

/-!
# The fast lock (`fastlock.c`)

One word has the lock: the owned flag, the waking flag, and the numbers of shared owners,
shared waiters and exclusive waiters, each in ten bits. A thread that cannot have the lock
counts itself as a waiter and waits on a semaphore. Who releases the lock to an exclusive
waiter sets the waking flag, takes one waiter off the count, and signals; the waiter takes
the ownership when it has woken. Shared waiters are released all at once, and try again.

A step of a thread is one read of the word, one compare-exchange, or one operation on a
semaphore. How often a thread spins before it waits is left open. `τ` are the threads; a
thread holds the lock at most once.
-/

namespace SystemInformer.PhLib

def phLockOwned : ULong := 0x1
def phLockExclusiveWaking : ULong := 0x2

def phLockSharedOwnersShift : Nat := 2
def phLockSharedOwnersMask : ULong := 0x3ff
def phLockSharedOwnersInc : ULong := 0x4

def phLockSharedWaitersShift : Nat := 12
def phLockSharedWaitersMask : ULong := 0x3ff
def phLockSharedWaitersInc : ULong := 0x1000

def phLockExclusiveWaitersShift : Nat := 22
def phLockExclusiveWaitersMask : ULong := 0x3ff
def phLockExclusiveWaitersInc : ULong := 0x400000

def phLockExclusiveMask : ULong :=
  phLockExclusiveWaking ||| (phLockExclusiveWaitersMask <<< phLockExclusiveWaitersShift)

def sharedOwnersOf (value : ULong) : ULong :=
  (value >>> phLockSharedOwnersShift) &&& phLockSharedOwnersMask

def sharedWaitersOf (value : ULong) : ULong :=
  (value >>> phLockSharedWaitersShift) &&& phLockSharedWaitersMask

def exclusiveWaitersOf (value : ULong) : ULong :=
  (value >>> phLockExclusiveWaitersShift) &&& phLockExclusiveWaitersMask

/-- Where a thread is, with the value it has read. -/
inductive FastLockPc where
  | idle
  | exclusive
  | shared
  /-- `PhfAcquireFastLockExclusive`. -/
  | acquireExclusive
  | takeExclusive (value : ULong)
  | ensureExclusive (value : ULong)
  | queueExclusive (value : ULong)
  | waitExclusive
  | wokenExclusive
  | claimExclusive (value : ULong)
  /-- `PhfAcquireFastLockShared`. -/
  | acquireShared
  | takeShared (value : ULong)
  | joinShared (value : ULong)
  | ensureShared (value : ULong)
  | queueShared (value : ULong)
  | waitShared
  /-- `PhfReleaseFastLockExclusive`. -/
  | releaseExclusive
  | giveExclusive (value : ULong)
  /-- `PhfReleaseFastLockShared`. -/
  | releaseShared
  | giveShared (value : ULong)
  /-- `NtReleaseSemaphore` of a release. -/
  | signalExclusive
  | signalShared (count : Nat)
  /-- `PhfTryAcquireFastLockExclusive`. -/
  | tryExclusive
  | tryTakeExclusive (value : ULong)
  /-- `PhfTryAcquireFastLockShared`. -/
  | tryShared
  | tryTakeShared (value : ULong)
  | tryJoinShared (value : ULong)

/-- A semaphore is told by its count once it has been created. -/
structure FastLockState (τ : Type) where
  value : ULong
  exclusiveWakeEvent : Option Nat
  sharedWakeEvent : Option Nat
  pc : τ → FastLockPc

section

variable {τ : Type} [DecidableEq τ]

namespace FastLockState

def goto (s : FastLockState τ) (t : τ) (pc : FastLockPc) : FastLockState τ :=
  { s with pc := Function.update s.pc t pc }

/-- `_InterlockedCompareExchange`, with where the thread goes on if it succeeds and if it
does not. -/
def compareExchange (s : FastLockState τ) (t : τ) (newValue value : ULong)
    (success failure : FastLockPc) : FastLockState τ :=
  if s.value = value then { s with value := newValue }.goto t success else s.goto t failure

/-- The next step of a thread; `spun` tells whether it has spun long enough. -/
def advance (s : FastLockState τ) (t : τ) (spun : Bool) : FastLockState τ :=
  match s.pc t with
  | .idle => s
  | .exclusive => s
  | .shared => s
  | .acquireExclusive =>
      let value := s.value
      if value &&& (phLockOwned ||| phLockExclusiveWaking) = 0 then s.goto t (.takeExclusive value)
      else if spun then s.goto t (.ensureExclusive value)
      else s
  | .takeExclusive value =>
      s.compareExchange t (value + phLockOwned) value .exclusive .acquireExclusive
  | .ensureExclusive value =>
      { s with exclusiveWakeEvent := some (s.exclusiveWakeEvent.getD 0) }.goto t
        (.queueExclusive value)
  | .queueExclusive value =>
      s.compareExchange t (value + phLockExclusiveWaitersInc) value .waitExclusive .acquireExclusive
  | .waitExclusive =>
      match s.exclusiveWakeEvent with
      | some (count + 1) => { s with exclusiveWakeEvent := some count }.goto t .wokenExclusive
      | _ => s
  | .wokenExclusive => s.goto t (.claimExclusive s.value)
  | .claimExclusive value =>
      s.compareExchange t (value + phLockOwned - phLockExclusiveWaking) value .exclusive
        .wokenExclusive
  | .acquireShared =>
      let value := s.value
      if value &&& (phLockOwned ||| (phLockSharedOwnersMask <<< phLockSharedOwnersShift) |||
          phLockExclusiveMask) = 0 then
        s.goto t (.takeShared value)
      else if value &&& phLockOwned ≠ 0 ∧ sharedOwnersOf value > 0 ∧
          value &&& phLockExclusiveMask = 0 then
        s.goto t (.joinShared value)
      else if spun then s.goto t (.ensureShared value)
      else s
  | .takeShared value =>
      s.compareExchange t (value + phLockOwned + phLockSharedOwnersInc) value .shared .acquireShared
  | .joinShared value =>
      s.compareExchange t (value + phLockSharedOwnersInc) value .shared .acquireShared
  | .ensureShared value =>
      { s with sharedWakeEvent := some (s.sharedWakeEvent.getD 0) }.goto t (.queueShared value)
  | .queueShared value =>
      s.compareExchange t (value + phLockSharedWaitersInc) value .waitShared .acquireShared
  | .waitShared =>
      match s.sharedWakeEvent with
      | some (count + 1) => { s with sharedWakeEvent := some count }.goto t .acquireShared
      | _ => s
  | .releaseExclusive => s.goto t (.giveExclusive s.value)
  | .giveExclusive value =>
      if exclusiveWaitersOf value ≠ 0 then
        s.compareExchange t
          (value - phLockOwned + phLockExclusiveWaking - phLockExclusiveWaitersInc) value
          .signalExclusive .releaseExclusive
      else
        s.compareExchange t
          (value &&& ~~~(phLockOwned ||| (phLockSharedWaitersMask <<< phLockSharedWaitersShift)))
          value
          (if sharedWaitersOf value ≠ 0 then .signalShared (sharedWaitersOf value).toNat else .idle)
          .releaseExclusive
  | .releaseShared => s.goto t (.giveShared s.value)
  | .giveShared value =>
      if sharedOwnersOf value > 1 then
        s.compareExchange t (value - phLockSharedOwnersInc) value .idle .releaseShared
      else if exclusiveWaitersOf value ≠ 0 then
        s.compareExchange t
          (value - phLockOwned + phLockExclusiveWaking - phLockSharedOwnersInc -
            phLockExclusiveWaitersInc)
          value .signalExclusive .releaseShared
      else
        s.compareExchange t (value - phLockOwned - phLockSharedOwnersInc) value .idle .releaseShared
  | .signalExclusive =>
      { s with exclusiveWakeEvent := s.exclusiveWakeEvent.map (· + 1) }.goto t .idle
  | .signalShared count =>
      { s with sharedWakeEvent := s.sharedWakeEvent.map (· + count) }.goto t .idle
  | .tryExclusive =>
      let value := s.value
      if value &&& (phLockOwned ||| phLockExclusiveWaking) ≠ 0 then s.goto t .idle
      else s.goto t (.tryTakeExclusive value)
  | .tryTakeExclusive value => s.compareExchange t (value + phLockOwned) value .exclusive .idle
  | .tryShared =>
      let value := s.value
      if value &&& phLockExclusiveMask ≠ 0 then s.goto t .idle
      else if value &&& phLockOwned = 0 then s.goto t (.tryTakeShared value)
      else if sharedOwnersOf value ≠ 0 then s.goto t (.tryJoinShared value)
      else s.goto t .idle
  | .tryTakeShared value =>
      s.compareExchange t (value + phLockOwned + phLockSharedOwnersInc) value .shared .idle
  | .tryJoinShared value =>
      s.compareExchange t (value + phLockSharedOwnersInc) value .shared .idle

end FastLockState

/-- The calls, each with where it can be made and where it begins. -/
def FastLockPc.calls : FastLockPc → FastLockPc → Prop
  | .idle, .acquireExclusive => True
  | .idle, .acquireShared => True
  | .idle, .tryExclusive => True
  | .idle, .tryShared => True
  | .exclusive, .releaseExclusive => True
  | .shared, .releaseShared => True
  | _, _ => False

inductive FastLockStep : FastLockState τ → FastLockState τ → Prop where
  | advance {s : FastLockState τ} (t : τ) (spun : Bool) : FastLockStep s (s.advance t spun)
  | call {s : FastLockState τ} (t : τ) (pc : FastLockPc) (hcall : (s.pc t).calls pc) :
      FastLockStep s (s.goto t pc)

/-- `PhInitializeFastLock`. -/
def FastLockState.start : FastLockState τ where
  value := 0
  exclusiveWakeEvent := none
  sharedWakeEvent := none
  pc := fun _ => .idle

end

end SystemInformer.PhLib
