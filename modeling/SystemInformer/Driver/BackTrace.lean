import SystemInformer.Base.Nt

/-!
# Stack back traces (`KSystemInformer/back_trace.c`)

The stack of another thread is captured by an APC that runs in that thread
and fills the flexible array `BackTrace[]` at the end of a
`KPH_STACK_BACK_TRACE_OBJECT`; the requesting thread waits for it and copies
the frames out. The object is created with a size computed here from the
number of frames asked for.

`BackTrace[]` is an unbounded array of pointers with the log of the elements
written, so a write beyond the object is visible as such. What the code calls
and does not define is the environment: the frame walks, which store some
pointers and then return a count or raise, the two driver images, the IRQL,
the thread context, and what becomes of the object, the APC and the wait.
-/

namespace SystemInformer.Driver

/-! ## Layout -/

/-- `sizeof(PVOID)`, `sizeof(KAPC)` and `sizeof(KEVENT)` in a 64-bit build. -/
def sizeofPointer : Nat := 8
def sizeofKapc : Nat := 88
def sizeofKevent : Nat := 24

/-- `sizeof(KSI_KAPC)`: a `KAPC` and four pointers. -/
def sizeofKsiKapc : Nat := sizeofKapc + 4 * sizeofPointer

/-- `FIELD_OFFSET(KPH_STACK_BACK_TRACE_OBJECT, BackTrace)`: after the APC and
the event come five `ULONG`s and a `BOOLEAN`, padded to a pointer boundary,
and the thread pointer. -/
def backTraceOffset : Nat :=
  (sizeofKsiKapc + sizeofKevent + 5 * 4 + 1 + 7) / 8 * 8 + sizeofPointer

/-- `sizeof(KPH_STACK_BACK_TRACE_OBJECT)`; `BackTrace[ANYSIZE_ARRAY]` counts
for one element. -/
def sizeofBackTraceObject : Nat := backTraceOffset + sizeofPointer

/-- `KPH_STACK_BACK_TRACE_USER_MODE`, `_SKIP_KPH` and `_NO_SENTINEL`. -/
def backTraceUserMode : UInt32 := 0x1
def backTraceSkipKph : UInt32 := 0x2
def backTraceNoSentinel : UInt32 := 0x4

def flagOn (flags flag : UInt32) : Bool := flags &&& flag != 0

/-- `KPH_STACK_SENTINEL_FRAME`. -/
def stackSentinelFrame : UInt64 := 0xbad

def rtlWalkUserModeStack : Nat := 1

/-! ## Frame buffers and walks -/

/-- An array of frames and the log of the elements written, oldest first. -/
structure FrameBuf where
  slots : Nat → UInt64
  log : List Nat

/-- Stores `frames` from element `i` on. -/
def FrameBuf.store (b : FrameBuf) (i : Nat) (frames : List UInt64) : FrameBuf where
  slots k := if i ≤ k ∧ k < i + frames.length then frames.getD (k - i) 0 else b.slots k
  log := b.log ++ (List.range frames.length).map (i + ·)

/-- The first `n` frames. -/
def FrameBuf.take (b : FrameBuf) (n : Nat) : List UInt64 :=
  (List.range n).map b.slots

/-- One call of `RtlWalkFrameChain`: the pointers it stores at its buffer, and
the count it returns, or `none` when it raises. -/
structure Walk where
  frames : List UInt64
  result : Option Nat

/-- What is assumed of a walk over a buffer of `n` elements. -/
def Walk.Conforms (w : Walk) (n : Nat) : Prop :=
  w.frames.length ≤ n ∧ ∀ r, w.result = some r → r ≤ n

structure DriverImages where
  selfBase : UInt64
  selfEnd : UInt64
  ksiBase : UInt64
  ksiEnd : UInt64

/-- The environment of one capture. `walk n flags` is what
`RtlWalkFrameChain` does when asked for `n` frames. -/
structure CaptureEnv where
  walk : Nat → Nat → Walk
  images : DriverImages
  dispatchLevel : Bool

def DriverImages.outside (images : DriverImages) (frame : UInt64) : Bool :=
  (frame < images.selfBase || frame ≥ images.selfEnd) &&
    (frame < images.ksiBase || frame ≥ images.ksiEnd)

/-! ## Capturing -/

/-- `KphpTryAddSentinelFrame`: the buffer and the number of frames after it. -/
def kphpTryAddSentinelFrame (framesToCapture : Nat) (b : FrameBuf) (frames : Nat)
    (flags : UInt32) : FrameBuf × Nat :=
  if flagOn flags backTraceNoSentinel then
    (b, frames)
  else if frames < framesToCapture then
    (b.store frames [stackSentinelFrame], frames + 1)
  else
    (b, frames)

/-- The loop that counts the leading driver frames, from `skip` with `n` frames
left. -/
def skipDriverFrames (images : DriverImages) (b : FrameBuf) (skip : Nat) : Nat → Nat
  | 0 => skip
  | n + 1 =>
      if images.outside (b.slots skip) then skip
      else skipDriverFrames images b (skip + 1) n

/-- The part before `ContinueCapture`, once the kernel walk has returned
`frames`; `framesToSkip` is already incremented. -/
def kernelFrames (env : CaptureEnv) (framesToSkip : Nat) (b : FrameBuf) (frames : Nat)
    (flags : UInt32) : FrameBuf × Nat :=
  if frames ≤ framesToSkip then
    (b, 0)
  else
    let frames := frames - framesToSkip
    if flagOn flags backTraceSkipKph then
      let skip := skipDriverFrames env.images b 0 frames
      if frames ≤ skip then
        (b, 0)
      else
        let moved := (List.range (frames - skip)).map fun k => b.slots (skip + k)
        (b.store 0 moved, frames - skip)
    else
      (b, frames)

/-- The part from `ContinueCapture` to `Exit`. `thread` is the thread context,
if there is one, with its `CapturingUserModeStack` flag. -/
def userFrames (env : CaptureEnv) (framesToCapture : Nat) (b : FrameBuf) (frames : Nat)
    (flags : UInt32) (thread : Option Bool) : FrameBuf × Nat :=
  if flagOn flags backTraceUserMode = false ∨ env.dispatchLevel = true then
    (b, frames)
  else
    match thread with
    | none => kphpTryAddSentinelFrame framesToCapture b frames flags
    | some true => kphpTryAddSentinelFrame framesToCapture b frames flags
    | some false =>
        let walk := env.walk (framesToCapture - frames) rtlWalkUserModeStack
        let b := b.store frames walk.frames
        match walk.result with
        | some n => (b, (frames + n) % ulongRange)
        | none => kphpTryAddSentinelFrame framesToCapture b frames flags

/-- The hash loop over the first `n` frames. -/
def backTraceHash (b : FrameBuf) : Nat → Nat
  | 0 => 0
  | n + 1 => (backTraceHash b n + (b.slots n).toNat % 2 ^ 32) % 2 ^ 32

/-- `KphpCaptureStackBackTrace`: the buffer it leaves and the number of frames,
`none` if the kernel walk raised, which nothing here catches. -/
def kphpCaptureStackBackTrace (env : CaptureEnv) (framesToSkip framesToCapture : Nat)
    (b : FrameBuf) (flags : UInt32) (thread : Option Bool) : FrameBuf × Option Nat :=
  let framesToSkip := (framesToSkip + 1) % ulongRange
  let skip := framesToSkip * 2 ^ 8 % ulongRange
  let walk := env.walk framesToCapture skip
  let b := b.store 0 walk.frames
  match walk.result with
  | none => (b, none)
  | some frames =>
      let kernel := kernelFrames env framesToSkip b frames flags
      let all := userFrames env framesToCapture kernel.1 kernel.2 flags thread
      (all.1, some all.2)

/-- `KphCaptureStackBackTrace`: the thread context is looked up only for a user
mode capture below dispatch level. -/
def kphCaptureStackBackTrace (env : CaptureEnv) (framesToSkip framesToCapture : Nat)
    (b : FrameBuf) (flags : UInt32) (current : Option Bool) : FrameBuf × Option Nat :=
  kphpCaptureStackBackTrace env framesToSkip framesToCapture b flags
    (if flagOn flags backTraceUserMode = true ∧ env.dispatchLevel = false then current
      else none)

/-! ## Another thread's stack -/

structure BackTraceObject where
  size : Nat
  buf : FrameBuf
  capturedFrames : Nat
  backTraceHash : Nat

/-- The fate of the APC and of the wait on the completion event: the APC ran
and set the event, or the wait ended first, the APC having run or not. -/
inductive ApcOutcome where
  | completed
  | timedOut (apcRan : Bool)

/-- What the calls of `KphCaptureStackBackTraceThread` do. `slots` is the
array behind the object when it is created. -/
structure ThreadEnv extends CaptureEnv where
  sameThread : Bool
  createObject : NtStatus
  threadContext : Option Bool
  slots : Nat → UInt64
  insertQueueApc : Bool
  outcome : ApcOutcome

/-- What a call leaves behind: a status (`none` if it never returns), the
caller's buffer and out parameters, and the object the APC wrote to. -/
structure ThreadCapture where
  status : Option NtStatus
  caller : FrameBuf
  capturedFrames : Nat
  backTraceHash : Option Nat
  object : Option BackTraceObject

/-- `KphpCaptureStackBackTraceIntoObject` on a fresh object, which the pool
hands out zeroed; a walk that raises leaves the counters as they were. -/
def captureIntoObject (env : ThreadEnv) (size : Nat) (framesToSkip framesToCapture : UInt32)
    (doHash : Bool) (flags : UInt32) : BackTraceObject × Bool :=
  let r := kphpCaptureStackBackTrace env.toCaptureEnv framesToSkip.toNat
    framesToCapture.toNat ⟨env.slots, []⟩ flags env.threadContext
  match r.2 with
  | none => (⟨size, r.1, 0, 0⟩, false)
  | some n => (⟨size, r.1, n, if doHash then backTraceHash r.1 n else 0⟩, true)

/-- `KphCaptureStackBackTraceThread`, called with the caller's buffer and
whether it asks for a hash. -/
def kphCaptureStackBackTraceThread (env : ThreadEnv)
    (framesToSkip framesToCapture : UInt32) (caller : FrameBuf) (doHash : Bool)
    (flags : UInt32) : ThreadCapture :=
  if env.sameThread then
    let r := kphCaptureStackBackTrace env.toCaptureEnv framesToSkip.toNat
      framesToCapture.toNat caller flags env.threadContext
    match r.2 with
    | none => ⟨none, r.1, 0, none, none⟩
    | some n =>
        ⟨some (if n ≠ 0 then statusSuccess else statusUnsuccessful), r.1, n,
          if doHash then some (backTraceHash r.1 n) else none, none⟩
  else
    let noHash := if doHash then some 0 else none
    match rtlULongAdd framesToCapture.toNat sizeofBackTraceObject with
    | .error status => ⟨some status, caller, 0, noHash, none⟩
    | .ok backTraceSize =>
        if ntSuccess env.createObject = false then
          ⟨some env.createObject, caller, 0, noHash, none⟩
        else if env.insertQueueApc = false then
          ⟨some statusUnsuccessful, caller, 0, noHash, none⟩
        else
          let captured := captureIntoObject env backTraceSize framesToSkip
            framesToCapture doHash flags
          match env.outcome with
          | .timedOut ran =>
              ⟨some statusTimeout, caller, 0, noHash,
                if ran then some captured.1 else none⟩
          | .completed =>
              if captured.2 then
                ⟨some statusSuccess,
                  caller.store 0 (captured.1.buf.take captured.1.capturedFrames),
                  captured.1.capturedFrames,
                  if doHash then some captured.1.backTraceHash else none,
                  some captured.1⟩
              else
                ⟨none, caller, 0, noHash, some captured.1⟩

end SystemInformer.Driver
