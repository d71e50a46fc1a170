import SystemInformer.Base.Words

/-!
# Rundown protection (`sync.c`, `phbasesup.h`)

The word counts the references, twice their number, until a thread waits for the rundown.
The waiter saves the count in a block on its stack and puts the address of the block into
the word, with the active flag; from then on no reference is given out, and whoever
releases one takes it off the count in the block. The last one sets the event of the block.

A step is one read, one compare-exchange, one decrement of the block's count, or one
operation on its event, which is either not initialized, clear or set. `τ` are the users, each
with at most one reference; the waiter is a thread of its own and calls once.
-/

namespace SystemInformer.PhLib

def phRundownActive : ULongPtr := 0x1
def phRundownRefShift : Nat := 1
def phRundownRefInc : ULongPtr := 0x2

/-- Where a user is, with the value it has read. -/
inductive RundownPc where
  | idle
  | held
  /-- `PhAcquireRundownProtection`. -/
  | acquire
  | acquireExchange (value : ULongPtr)
  /-- `PhfAcquireRundownProtection`. -/
  | acquireSlow
  | acquireSlowExchange (value : ULongPtr)
  /-- `PhReleaseRundownProtection`. -/
  | release
  | releaseExchange (value : ULongPtr)
  /-- `PhfReleaseRundownProtection`. -/
  | releaseSlow
  | releaseSlowExchange (value : ULongPtr)
  | decrement (waitBlock : ULongPtr)
  | setEvent

inductive RundownWaiter where
  | idle
  /-- `PhWaitForRundownProtection`. -/
  | exchange
  /-- `PhfWaitForRundownProtection`. -/
  | exchangeSlow
  | read
  | initializeEvent (value : ULongPtr)
  | saveCount (value : ULongPtr)
  | install (value : ULongPtr)
  | waitEvent
  | returned
deriving DecidableEq

/-- The address of a wait block, which is aligned and not null. -/
structure WaitBlock where
  address : ULongPtr
  aligned : address &&& phRundownActive = 0
  notNull : address ≠ 0

/-- The word, the wait block, and where everyone is. `strayed` tells that a wait block was
used that is not the waiter's. -/
structure RundownState (τ : Type) where
  value : ULongPtr
  count : ULongPtr
  wakeEvent : Option Bool
  waiter : RundownWaiter
  pc : τ → RundownPc
  strayed : Bool

section

variable {τ : Type} [DecidableEq τ]

namespace RundownState

def goto (s : RundownState τ) (t : τ) (pc : RundownPc) : RundownState τ :=
  { s with pc := Function.update s.pc t pc }

def compareExchange (s : RundownState τ) (t : τ) (newValue value : ULongPtr)
    (success failure : RundownPc) : RundownState τ :=
  if s.value = value then { s with value := newValue }.goto t success else s.goto t failure

def advance (waitBlock : WaitBlock) (s : RundownState τ) (t : τ) : RundownState τ :=
  match s.pc t with
  | .idle => s
  | .held => s
  | .acquire => s.goto t (.acquireExchange (s.value &&& ~~~phRundownActive))
  | .acquireExchange value =>
      s.compareExchange t (value + phRundownRefInc) value .held .acquireSlow
  | .acquireSlow =>
      let value := s.value
      if value &&& phRundownActive ≠ 0 then s.goto t .idle
      else s.goto t (.acquireSlowExchange value)
  | .acquireSlowExchange value =>
      s.compareExchange t (value + phRundownRefInc) value .held .acquireSlow
  | .release => s.goto t (.releaseExchange (s.value &&& ~~~phRundownActive))
  | .releaseExchange value =>
      s.compareExchange t (value - phRundownRefInc) value .idle .releaseSlow
  | .releaseSlow =>
      let value := s.value
      if value &&& phRundownActive ≠ 0 then s.goto t (.decrement (value &&& ~~~phRundownActive))
      else s.goto t (.releaseSlowExchange value)
  | .releaseSlowExchange value =>
      s.compareExchange t (value - phRundownRefInc) value .idle .releaseSlow
  | .decrement block =>
      if block = waitBlock.address then
        let count := s.count - 1
        { s with count := count }.goto t (if count = 0 then .setEvent else .idle)
      else { s with strayed := true }
  | .setEvent => { s with wakeEvent := s.wakeEvent.map fun _ => true }.goto t .idle

def advanceWaiter (waitBlock : WaitBlock) (s : RundownState τ) : RundownState τ :=
  match s.waiter with
  | .idle => { s with waiter := .exchange }
  | .exchange =>
      if s.value = 0 then { s with value := phRundownActive, waiter := .returned }
      else if s.value = phRundownActive then { s with waiter := .returned }
      else { s with waiter := .exchangeSlow }
  | .exchangeSlow =>
      if s.value = 0 then { s with value := phRundownActive, waiter := .returned }
      else if s.value = phRundownActive then { s with waiter := .returned }
      else { s with waiter := .read }
  | .read => { s with waiter := .initializeEvent s.value }
  | .initializeEvent value =>
      let count := value >>> phRundownRefShift
      if count ≠ 0 ∧ s.wakeEvent = none then
        { s with wakeEvent := some false, waiter := .saveCount value }
      else { s with waiter := .saveCount value }
  | .saveCount value =>
      { s with count := value >>> phRundownRefShift, waiter := .install value }
  | .install value =>
      if s.value = value then
        { s with
          value := waitBlock.address ||| phRundownActive
          waiter := if value >>> phRundownRefShift ≠ 0 then .waitEvent else .returned }
      else { s with waiter := .read }
  | .waitEvent => if s.wakeEvent = some true then { s with waiter := .returned } else s
  | .returned => s

/-- `PhInitializeRundownProtection`. -/
def start : RundownState τ where
  value := 0
  count := 0
  wakeEvent := none
  waiter := .idle
  pc := fun _ => .idle
  strayed := false

end RundownState

inductive RundownStep (waitBlock : WaitBlock) : RundownState τ → RundownState τ → Prop where
  | advance {s : RundownState τ} (t : τ) : RundownStep waitBlock s (s.advance waitBlock t)
  | acquire {s : RundownState τ} (t : τ) (hidle : s.pc t = .idle) :
      RundownStep waitBlock s (s.goto t .acquire)
  | release {s : RundownState τ} (t : τ) (hheld : s.pc t = .held) :
      RundownStep waitBlock s (s.goto t .release)
  | wait {s : RundownState τ} : RundownStep waitBlock s (s.advanceWaiter waitBlock)

end

/-! ## Waiting more than once

Any number of threads wait for a rundown, and each may wait again. Every call has a wait block of
its own on the stack of the thread, which no other call under way shares; the counts and the
events of the blocks are kept by their addresses. A step is that of a user or of a waiter, as
they are with a single block.

`decremented` has the block that a user has taken its reference off. `completed` tells that a wait
has returned, and `late` that the last call of a waiter came after that. -/

structure RundownWaits (τ ω : Type) where
  value : ULongPtr
  count : ULongPtr → ULongPtr
  wakeEvent : ULongPtr → Option Bool
  pc : τ → RundownPc
  decremented : τ → ULongPtr
  waiter : ω → RundownWaiter
  waitBlock : ω → WaitBlock
  completed : Bool
  late : ω → Bool

section

variable {τ ω : Type} [DecidableEq τ] [DecidableEq ω]

namespace RundownWaits

/-- The protection with a single block, a single user and a single waiter. -/
def view (s : RundownWaits τ ω) (block : ULongPtr) (waiter : RundownWaiter) (pc : RundownPc) :
    RundownState Unit where
  value := s.value
  count := s.count block
  wakeEvent := s.wakeEvent block
  waiter := waiter
  pc := fun _ => pc
  strayed := false

def withView (s : RundownWaits τ ω) (block : ULongPtr) (r : RundownState Unit) :
    RundownWaits τ ω :=
  { s with
    value := r.value
    count := Function.update s.count block r.count
    wakeEvent := Function.update s.wakeEvent block r.wakeEvent }

def goto (s : RundownWaits τ ω) (t : τ) (pc : RundownPc) : RundownWaits τ ω :=
  { s with pc := Function.update s.pc t pc }

/-- The user has the address of the block, if it works on one. -/
def names (s : RundownWaits τ ω) (t : τ) (waitBlock : WaitBlock) : Bool :=
  match s.pc t with
  | .decrement block => waitBlock.address = block
  | .setEvent => waitBlock.address = s.decremented t
  | _ => true

def advance (waitBlock : WaitBlock) (s : RundownWaits τ ω) (t : τ) : RundownWaits τ ω :=
  let r := (s.view waitBlock.address .idle (s.pc t)).advance waitBlock ()
  { s.withView waitBlock.address r with
    decremented := Function.update s.decremented t waitBlock.address }.goto t (r.pc ())

/-- A thread calls `PhWaitForRundownProtection`. -/
def callWait (s : RundownWaits τ ω) (w : ω) (waitBlock : WaitBlock) : RundownWaits τ ω :=
  { s with
    wakeEvent := Function.update s.wakeEvent waitBlock.address none
    waiter := Function.update s.waiter w .exchange
    waitBlock := Function.update s.waitBlock w waitBlock
    late := Function.update s.late w s.completed }

def advanceWaiter (s : RundownWaits τ ω) (w : ω) : RundownWaits τ ω :=
  let block := (s.waitBlock w).address
  let r := (s.view block (s.waiter w) .idle).advanceWaiter (s.waitBlock w)
  { s.withView block r with
    waiter := Function.update s.waiter w r.waiter
    completed := s.completed || r.waiter = .returned }

/-- `PhInitializeRundownProtection`. -/
def start (waitBlock : ω → WaitBlock) : RundownWaits τ ω where
  value := 0
  count := fun _ => 0
  wakeEvent := fun _ => none
  pc := fun _ => .idle
  decremented := fun _ => 0
  waiter := fun _ => .idle
  waitBlock := waitBlock
  completed := false
  late := fun _ => false

end RundownWaits

def RundownWaiter.inside : RundownWaiter → Bool
  | .idle => false
  | .returned => false
  | _ => true

/-- `allowed` tells which waiters may go on. -/
inductive RundownWaitsStep (allowed : RundownWaits τ ω → ω → Prop) :
    RundownWaits τ ω → RundownWaits τ ω → Prop where
  | advance {s : RundownWaits τ ω} (t : τ) (waitBlock : WaitBlock) (hnames : s.names t waitBlock = true) :
      RundownWaitsStep allowed s (s.advance waitBlock t)
  | acquire {s : RundownWaits τ ω} (t : τ) (hidle : s.pc t = .idle) :
      RundownWaitsStep allowed s (s.goto t .acquire)
  | release {s : RundownWaits τ ω} (t : τ) (hheld : s.pc t = .held) :
      RundownWaitsStep allowed s (s.goto t .release)
  | call {s : RundownWaits τ ω} (w : ω) (waitBlock : WaitBlock)
      (houtside : (s.waiter w).inside = false)
      (hfree : ∀ u, (s.waiter u).inside = true → s.waitBlock u ≠ waitBlock) :
      RundownWaitsStep allowed s (s.callWait w waitBlock)
  | wait {s : RundownWaits τ ω} (w : ω) (hinside : (s.waiter w).inside = true)
      (hallowed : allowed s w) : RundownWaitsStep allowed s (s.advanceWaiter w)

end

end SystemInformer.PhLib
