import SystemInformer.Base.Words

/-!
# The event (`sync.c`)

An event is a word and a handle. The word has the set flag and the number of references,
one of which belongs to the event until it is set; the handle is null until a thread has to
wait. Who waits refers to the event while it uses the handle, and whoever takes the last
reference away closes the handle that it knows of and clears the field.

A step is one read, one interlocked operation, one store, or one system call. Handles are
numbered as they are created, and of each one the system knows whether it is signaled and how
often it has been closed; `misused` tells that a handle was waited on, signaled or closed after
it had been closed. `τ` are the threads.
-/

namespace SystemInformer.PhLib

def phEventSet : ULongPtr := 0x1
def phEventRefcountShift : Nat := 1
def phEventRefcountInc : ULongPtr := 0x2
def phEventRefcountMask : ULongPtr := 0x7fff

/-- The test of `PhpDereferenceEvent` on the value before. -/
def refcountBecomesZero (value : ULongPtr) : Prop :=
  ((value >>> phEventRefcountShift) &&& phEventRefcountMask) - 1 = 0

instance (value : ULongPtr) : Decidable (refcountBecomesZero value) :=
  inferInstanceAs (Decidable (_ = _))

inductive EventTimeout where
  | infinite
  | zero
  | finite
deriving DecidableEq

/-- Where a thread is. What is done with a handle, null or not, names it; `result` is what
`PhfWaitForEvent` is to return. -/
inductive EventPc where
  | idle
  /-- `PhfSetEvent`. -/
  | set
  | setReadHandle
  | setSignal (handle : Nat)
  /-- `PhfWaitForEvent`. -/
  | wait
  | reference
  | readHandle
  | create
  | publish (handle : Nat)
  | closeSpare (handle : Nat)
  | rereadHandle
  | test (handle : Option Nat)
  | block (handle : Option Nat)
  /-- `PhpDereferenceEvent`. -/
  | dereference (handle : Option Nat) (result : Option Bool)
  | close (handle : Nat) (result : Option Bool)
  | clear (result : Option Bool)
deriving DecidableEq

/-- A call of `PhfWaitForEvent` that has returned. -/
structure EventReturn where
  timeout : EventTimeout
  result : Bool

structure EventState (τ : Type) where
  value : ULongPtr
  eventHandle : Option Nat
  created : Nat
  signaled : Nat → Bool
  closes : Nat → Nat
  misused : Bool
  timeout : τ → EventTimeout
  pc : τ → EventPc
  returned : List EventReturn

section

variable {τ : Type} [DecidableEq τ]

namespace EventState

def goto (s : EventState τ) (t : τ) (pc : EventPc) : EventState τ :=
  { s with pc := Function.update s.pc t pc }

/-- A call is over; `PhfSetEvent` has no result. -/
def finish (s : EventState τ) (t : τ) (result : Option Bool) : EventState τ :=
  match result with
  | none => s.goto t .idle
  | some result => { s with returned := ⟨s.timeout t, result⟩ :: s.returned }.goto t .idle

def use (s : EventState τ) (handle : Nat) : EventState τ :=
  { s with misused := s.misused || s.closes handle != 0 }

def ntClose (s : EventState τ) (handle : Nat) : EventState τ :=
  { s.use handle with closes := Function.update s.closes handle (s.closes handle + 1) }

def ntSetEvent (s : EventState τ) (handle : Nat) : EventState τ :=
  { s.use handle with signaled := Function.update s.signaled handle true }

/-- The next step of a thread; `timedOut` tells whether a timeout that is not infinite
has elapsed. -/
def advance (s : EventState τ) (t : τ) (timedOut : Bool) : EventState τ :=
  match s.pc t with
  | .idle => s
  | .set =>
      { s with value := s.value ||| phEventSet }.goto t
        (if s.value &&& phEventSet = 0 then .setReadHandle else .idle)
  | .setReadHandle =>
      match s.eventHandle with
      | some handle => s.goto t (.setSignal handle)
      | none => s.goto t (.dereference none none)
  | .setSignal handle => (s.ntSetEvent handle).goto t (.dereference (some handle) none)
  | .wait =>
      if s.value &&& phEventSet ≠ 0 then s.finish t (some true)
      else if s.timeout t = .zero then s.finish t (some false)
      else s.goto t .reference
  | .reference => { s with value := s.value + phEventRefcountInc }.goto t .readHandle
  | .readHandle =>
      match s.eventHandle with
      | some handle => s.goto t (.test (some handle))
      | none => s.goto t .create
  | .create => { s with created := s.created + 1 }.goto t (.publish s.created)
  | .publish handle =>
      if s.eventHandle = none then
        { s with eventHandle := some handle }.goto t (.test (some handle))
      else s.goto t (.closeSpare handle)
  | .closeSpare handle => (s.ntClose handle).goto t .rereadHandle
  | .rereadHandle => s.goto t (.test s.eventHandle)
  | .test handle =>
      if s.value &&& phEventSet = 0 then s.goto t (.block handle)
      else s.goto t (.dereference handle (some true))
  | .block none => s.goto t (.dereference none (some false))
  | .block (some handle) =>
      if s.closes handle ≠ 0 then
        (s.use handle).goto t (.dereference (some handle) (some false))
      else if s.signaled handle then s.goto t (.dereference (some handle) (some true))
      else if timedOut ∧ s.timeout t ≠ .infinite then
        s.goto t (.dereference (some handle) (some false))
      else s
  | .dereference handle result =>
      let s' := { s with value := s.value - phEventRefcountInc }
      if refcountBecomesZero s.value then
        match handle with
        | some handle => s'.goto t (.close handle result)
        | none => s'.finish t result
      else s'.finish t result
  | .close handle result => (s.ntClose handle).goto t (.clear result)
  | .clear result => { s with eventHandle := none }.finish t result

/-- `PhfInitializeEvent`. -/
def start : EventState τ where
  value := phEventRefcountInc
  eventHandle := none
  created := 0
  signaled := fun _ => false
  closes := fun _ => 0
  misused := false
  timeout := fun _ => .infinite
  pc := fun _ => .idle
  returned := []

end EventState

/-- The steps of one thread that sets the event and of the others that wait for it; `allowed`
tells which threads may go on. -/
inductive EventStep (setter : τ) (allowed : EventState τ → τ → Prop) :
    EventState τ → EventState τ → Prop where
  | advance {s : EventState τ} (t : τ) (timedOut : Bool) (hallowed : allowed s t) :
      EventStep setter allowed s (s.advance t timedOut)
  | set {s : EventState τ} (hidle : s.pc setter = .idle) :
      EventStep setter allowed s (s.goto setter .set)
  | wait {s : EventState τ} (t : τ) (timeout : EventTimeout) (hwaiter : t ≠ setter)
      (hidle : s.pc t = .idle) :
      EventStep setter allowed s
        ({ s with timeout := Function.update s.timeout t timeout }.goto t .wait)

end

end SystemInformer.PhLib
