import SystemInformer.Base.Words

/-!
# The barrier (`sync.c`)

One word has the number of threads that have reached the barrier, the number of threads that
are to reach it, and the waking flag. The last thread to reach it sets the flag and becomes
the master of the phase; the others take themselves off the count when they see the flag,
and the master clears it when it is the only one left. A thread that finds the flag set on
its way in waits for the end of the phase before.

A step is one read or one interlocked operation. `PhpBlockOnBarrier` may return at any time,
so it is no step, and neither are the wake events that it waits for. `answers` are the results
of the calls of a thread, in order. `τ` are the threads, and their number is the target.
-/

namespace SystemInformer.PhLib

def phBarrierCountMask : ULongPtr := 0x7fffffff
def phBarrierCountInc : ULongPtr := 0x1
def phBarrierTargetShift : Nat := 32
def phBarrierTargetMask : ULongPtr := 0x7fffffff
def phBarrierWaking : ULongPtr := 0x8000000000000000

def barrierCount (value : ULongPtr) : ULongPtr := (value >>> 0) &&& phBarrierCountMask

def barrierTarget (value : ULongPtr) : ULongPtr :=
  (value >>> phBarrierTargetShift) &&& phBarrierTargetMask

/-- Where a thread is in `PhfWaitForBarrier`. -/
inductive BarrierPc where
  | idle
  | enter
  /-- The loop, with the value that was read last. -/
  | arrive (value : ULongPtr)
  | observe
  | slave
  | leave
  | master
  | clear

structure BarrierState (τ : Type) where
  value : ULongPtr
  pc : τ → BarrierPc
  answers : τ → List Bool

section

variable {τ : Type} [DecidableEq τ]

namespace BarrierState

def goto (s : BarrierState τ) (t : τ) (pc : BarrierPc) : BarrierState τ :=
  { s with pc := Function.update s.pc t pc }

def answer (s : BarrierState τ) (t : τ) (result : Bool) : BarrierState τ :=
  { s with answers := Function.update s.answers t (s.answers t ++ [result]) }.goto t .idle

def advance (s : BarrierState τ) (t : τ) : BarrierState τ :=
  match s.pc t with
  | .idle => s
  | .enter => s.goto t (.arrive s.value)
  | .arrive value =>
      if value &&& phBarrierWaking = 0 then
        let count := barrierCount value + 1
        let target := barrierTarget value
        let newValue :=
          if count ≠ target then value + phBarrierCountInc
          else value + phBarrierCountInc + phBarrierWaking
        if s.value = value then
          { s with value := newValue }.goto t (if count ≠ target then .slave else .master)
        else s.goto t (.arrive s.value)
      else s.goto t .observe
  | .observe => s.goto t (.arrive s.value)
  | .slave => if s.value &&& phBarrierWaking = 0 then s else s.goto t .leave
  | .leave => { s with value := s.value - phBarrierCountInc }.answer t false
  | .master => if barrierCount s.value ≠ 1 then s else s.goto t .clear
  | .clear => { s with value := s.value - (phBarrierWaking + phBarrierCountInc) }.answer t true

/-- `PhfInitializeBarrier`. -/
def start (target : Nat) : BarrierState τ where
  value := BitVec.ofNat 64 target <<< phBarrierTargetShift
  pc := fun _ => .idle
  answers := fun _ => []

end BarrierState

inductive BarrierStep : BarrierState τ → BarrierState τ → Prop where
  | advance {s : BarrierState τ} (t : τ) : BarrierStep s (s.advance t)
  | call {s : BarrierState τ} (t : τ) (hidle : s.pc t = .idle) : BarrierStep s (s.goto t .enter)

end

end SystemInformer.PhLib
