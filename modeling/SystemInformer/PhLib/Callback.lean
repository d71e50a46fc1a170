import SystemInformer.Base.Words
import SystemInformer.Lib.RwLock

/-!
# Callbacks (`basesup.c`)

A callback object has a list of registrations. `PhInvokeCallback` walks the list and calls
the function of each registration without the lock of the list; `Busy` keeps
`PhUnregisterCallback` from removing the registration meanwhile.

`τ` are the threads and `κ` the addresses of registrations. A call that a function of a
registration makes is a call of another thread here, since the thread that runs the function
holds nothing but its place in the list. What is done between two steps is local to a thread:
each acquisition and release of the lock is a step, each access to `Busy` and to
`Unregistering`, each read of `Flink` and each change of the list, and a function starts in
one step and ends in another. A wait for the condition may end at any time, so that
`PhPulseAllCondition` changes nothing here. `Busy` counts functions that run, of which there
are fewer than `MAXLONG`. The caller hands storage to `PhRegisterCallbackEx` that is not in
use, and to `PhUnregisterCallback` a registration; unused storage may hold anything.

`calls` has how often the call that a thread makes has called the function of a registration,
and `steady` the registrations that were registered and not unregistering since that call
began. Neither is part of the program.
-/

namespace SystemInformer.PhLib

/-- The fields of `PH_CALLBACK_REGISTRATION` that are read under way. -/
structure CallbackRegistration where
  busy : Int
  unregistering : Bool
  deriving DecidableEq

inductive CallbackCall (κ : Type) where
  | phRegisterCallbackEx (registration : κ)
  | phUnregisterCallback (registration : κ)
  | phInvokeCallback
  deriving DecidableEq

/-- Where a thread is. A place of `PhInvokeCallback` has the list entry that the walk is at;
`none` is the head of the list. -/
inductive CallbackPc (κ : Type) where
  | idle
  | initRegistration (r : κ)
  | registerAcquire (r : κ)
  | insertTailList (r : κ)
  | registerRelease (r : κ)
  | registered (r : κ)
  | storeUnregistering (r : κ)
  | unregisterAcquire (r : κ)
  | testBusy (r : κ)
  | waitRelease (r : κ)
  | waiting (r : κ)
  | removeEntryList (r : κ)
  | unregisterRelease (r : κ)
  | unregistered (r : κ)
  | invokeAcquire
  | readFlink (listEntry : Option κ)
  | testUnregistering (r : κ)
  | incrementBusy (r : κ)
  | callRelease (r : κ)
  | call (r : κ)
  | running (r : κ)
  | callAcquire (r : κ)
  | decrementBusy (r : κ)
  | pulse (r : κ) (busy : Int)
  | invokeRelease
  | invoked
  deriving DecidableEq

inductive StorageUse (τ : Type) where
  | free
  | taken (t : τ)
  | registered
  deriving DecidableEq

structure CallbackState (τ κ : Type) where
  pc : τ → CallbackPc κ
  listLock : RwLock τ
  listHead : List κ
  registration : κ → CallbackRegistration
  storage : κ → StorageUse τ
  calls : τ → κ → Nat
  steady : τ → κ → Bool

section

variable {τ κ : Type} [DecidableEq τ] [DecidableEq κ]

/-- `Flink` of a list entry, or of the head of the list. -/
def listFlink (listHead : List κ) : Option κ → Option κ
  | none => listHead.head?
  | some r => (listHead.dropWhile (· ≠ r)).tail.head?

namespace CallbackState

def goto (s : CallbackState τ κ) (t : τ) (pc : CallbackPc κ) : CallbackState τ κ :=
  { s with pc := Function.update s.pc t pc }

def setRegistration (s : CallbackState τ κ) (r : κ) (content : CallbackRegistration) :
    CallbackState τ κ :=
  { s with registration := Function.update s.registration r content }

def setStorage (s : CallbackState τ κ) (r : κ) (use : StorageUse τ) : CallbackState τ κ :=
  { s with storage := Function.update s.storage r use }

/-- A registration is unregistering from now on, or removed. -/
def unsettle (s : CallbackState τ κ) (r : κ) : CallbackState τ κ :=
  { s with steady := fun t => Function.update (s.steady t) r false }

def withLock (s : CallbackState τ κ) (lock : Option (RwLock τ)) (t : τ) (pc : CallbackPc κ) :
    Option (CallbackState τ κ) :=
  lock.map fun listLock => { s with listLock := listLock }.goto t pc

/-- A thread goes on, unless it waits for the lock or has nothing to do. -/
def advance (s : CallbackState τ κ) (t : τ) : Option (CallbackState τ κ) :=
  match s.pc t with
  | .idle => none
  -- PhRegisterCallbackEx
  | .initRegistration r => some ((s.setRegistration r ⟨0, false⟩).goto t (.registerAcquire r))
  | .registerAcquire r => s.withLock (s.listLock.acquireExclusive t) t (.insertTailList r)
  | .insertTailList r => some ({ s with listHead := s.listHead ++ [r] }.goto t (.registerRelease r))
  | .registerRelease r => s.withLock (some s.listLock.releaseExclusive) t (.registered r)
  | .registered r => some ((s.setStorage r .registered).goto t .idle)
  -- PhUnregisterCallback
  | .storeUnregistering r =>
      some (((s.setRegistration r { s.registration r with unregistering := true }).unsettle r).goto t
        (.unregisterAcquire r))
  | .unregisterAcquire r => s.withLock (s.listLock.acquireExclusive t) t (.testBusy r)
  | .testBusy r =>
      some (s.goto t (if (s.registration r).busy ≠ 0 then .waitRelease r else .removeEntryList r))
  | .waitRelease r => s.withLock (some s.listLock.releaseExclusive) t (.waiting r)
  | .waiting r => some (s.goto t (.unregisterAcquire r))
  | .removeEntryList r =>
      some (({ s with listHead := s.listHead.erase r }.unsettle r).goto t (.unregisterRelease r))
  | .unregisterRelease r => s.withLock (some s.listLock.releaseExclusive) t (.unregistered r)
  | .unregistered r => some ((s.setStorage r .free).goto t .idle)
  -- PhInvokeCallback
  | .invokeAcquire => s.withLock (s.listLock.acquireShared t) t (.readFlink none)
  | .readFlink listEntry =>
      some (s.goto t ((listFlink s.listHead listEntry).elim .invokeRelease .testUnregistering))
  | .testUnregistering r =>
      some (s.goto t
        (if (s.registration r).unregistering then .readFlink (some r) else .incrementBusy r))
  | .incrementBusy r =>
      some ((s.setRegistration r { s.registration r with busy := (s.registration r).busy + 1 }).goto t
        (.callRelease r))
  | .callRelease r => s.withLock (some (s.listLock.releaseShared t)) t (.call r)
  | .call r =>
      some ({ s with calls :=
        Function.update s.calls t (Function.update (s.calls t) r (s.calls t r + 1)) }.goto t
          (.running r))
  | .running r => some (s.goto t (.callAcquire r))
  | .callAcquire r => s.withLock (s.listLock.acquireShared t) t (.decrementBusy r)
  | .decrementBusy r =>
      some ((s.setRegistration r { s.registration r with busy := (s.registration r).busy - 1 }).goto t
        (.pulse r ((s.registration r).busy - 1)))
  -- Whether it wakes somebody or not.
  | .pulse r _ => some (s.goto t (.readFlink (some r)))
  | .invokeRelease => s.withLock (some (s.listLock.releaseShared t)) t .invoked
  | .invoked => some (s.goto t .idle)

def Admits (s : CallbackState τ κ) : CallbackCall κ → Prop
  | .phRegisterCallbackEx r => s.storage r = .free
  | .phUnregisterCallback r => s.storage r = .registered
  | .phInvokeCallback => True

instance (s : CallbackState τ κ) (call : CallbackCall κ) : Decidable (s.Admits call) :=
  match call with
  | .phRegisterCallbackEx r => inferInstanceAs (Decidable (s.storage r = .free))
  | .phUnregisterCallback r => inferInstanceAs (Decidable (s.storage r = .registered))
  | .phInvokeCallback => inferInstanceAs (Decidable True)

def begin (s : CallbackState τ κ) (t : τ) : CallbackCall κ → CallbackState τ κ
  | .phRegisterCallbackEx r => (s.setStorage r (.taken t)).goto t (.initRegistration r)
  | .phUnregisterCallback r => (s.setStorage r (.taken t)).goto t (.storeUnregistering r)
  | .phInvokeCallback =>
      { s with
        calls := Function.update s.calls t fun _ => 0
        steady := Function.update s.steady t fun r =>
          decide (r ∈ s.listHead) && !(s.registration r).unregistering }.goto t .invokeAcquire

end CallbackState

/-- A step of the system; `may` tells which calls are made. -/
inductive CallbackStep (may : CallbackCall κ → Prop) :
    CallbackState τ κ → CallbackState τ κ → Prop where
  | begin {s : CallbackState τ κ} (t : τ) (call : CallbackCall κ) (hidle : s.pc t = .idle)
      (hmay : may call) (hadmits : s.Admits call) : CallbackStep may s (s.begin t call)
  | advance {s s' : CallbackState τ κ} (t : τ) (h : s.advance t = some s') : CallbackStep may s s'
  | reuse {s : CallbackState τ κ} (r : κ) (content : CallbackRegistration)
      (hfree : s.storage r = .free) : CallbackStep may s (s.setRegistration r content)

/-- `PhInitializeCallback`, with what is in the storage of the registrations to be. -/
def phInitializeCallback (registration : κ → CallbackRegistration) : CallbackState τ κ where
  pc _ := .idle
  listLock := .free
  listHead := []
  registration := registration
  storage _ := .free
  calls _ _ := 0
  steady _ _ := false

end

end SystemInformer.PhLib
