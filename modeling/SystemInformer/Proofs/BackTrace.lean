import SystemInformer.Driver.BackTrace

/-!
# Capturing another thread's stack: which captures stay inside the object

The capture itself respects the number of frames it is given: the kernel walk,
the move that drops driver frames, the sentinel and the user walk all write
elements below `FramesToCapture`, and the count it returns is at most that.
The object, though, is created with one byte per frame beyond its fixed part
where each frame needs a pointer's worth, so the array that is really there
holds `FramesToCapture` pointers only when that is at most one. Larger counts
are safe for a single reason: they are so large that the checked addition of
the sizes overflows and nothing is captured at all.
-/

namespace SystemInformer.Driver

/-! ## The capture writes below the frame count -/

/-- Every element the buffer's log names is below `n`. -/
def FrameBuf.Below (b : FrameBuf) (n : Nat) : Prop := ∀ slot ∈ b.log, slot < n

theorem FrameBuf.below_store {b : FrameBuf} {i n : Nat} {frames : List UInt64}
    (hb : b.Below n) (h : i + frames.length ≤ n) : (b.store i frames).Below n := by
  intro slot hslot
  rcases List.mem_append.mp hslot with hold | hnew
  · exact hb slot hold
  · obtain ⟨k, hk, rfl⟩ := List.mem_map.mp hnew
    have := List.mem_range.mp hk
    omega

theorem sentinel_below {n frames : Nat} {b : FrameBuf} {flags : UInt32}
    (hb : b.Below n) (hf : frames ≤ n) :
    (kphpTryAddSentinelFrame n b frames flags).1.Below n ∧
      (kphpTryAddSentinelFrame n b frames flags).2 ≤ n := by
  unfold kphpTryAddSentinelFrame
  split
  · exact ⟨hb, hf⟩
  · split
    · next hlt => exact ⟨FrameBuf.below_store hb hlt, hlt⟩
    · exact ⟨hb, hf⟩

theorem kernelFrames_below (env : CaptureEnv) (framesToSkip : Nat) (flags : UInt32)
    {n frames : Nat} {b : FrameBuf} (hb : b.Below n) (hf : frames ≤ n) :
    (kernelFrames env framesToSkip b frames flags).1.Below n ∧
      (kernelFrames env framesToSkip b frames flags).2 ≤ n := by
  unfold kernelFrames
  split
  · exact ⟨hb, Nat.zero_le n⟩
  · simp only
    split
    · split
      · exact ⟨hb, Nat.zero_le n⟩
      · refine ⟨FrameBuf.below_store hb ?_, ?_⟩
        · rw [List.length_map, List.length_range]
          omega
        · simp only
          omega
    · exact ⟨hb, by simp only; omega⟩

theorem userFrames_below {env : CaptureEnv} {n frames : Nat} {b : FrameBuf}
    (flags : UInt32) (thread : Option Bool) (hn : n < 2 ^ 32)
    (hwalk : ∀ count flags, (env.walk count flags).Conforms count)
    (hb : b.Below n) (hf : frames ≤ n) :
    (userFrames env n b frames flags thread).1.Below n ∧
      (userFrames env n b frames flags thread).2 ≤ n := by
  unfold userFrames
  split
  · exact ⟨hb, hf⟩
  · split
    · exact sentinel_below hb hf
    · exact sentinel_below hb hf
    · obtain ⟨hlen, hret⟩ := hwalk (n - frames) rtlWalkUserModeStack
      have hb' : (b.store frames (env.walk (n - frames) rtlWalkUserModeStack).frames).Below n :=
        FrameBuf.below_store hb (by omega)
      simp only
      split
      · next r hr =>
          have := hret r hr
          refine ⟨hb', ?_⟩
          simp only [ulongRange]
          omega
      · exact sentinel_below hb' hf

/-- One capture: every element written is below the frame count, and so is the
number of frames returned. -/
theorem capture_below {env : CaptureEnv} {n : Nat} {b : FrameBuf} (framesToSkip : Nat)
    (flags : UInt32) (thread : Option Bool) (hn : n < 2 ^ 32)
    (hwalk : ∀ count flags, (env.walk count flags).Conforms count) (hb : b.Below n) :
    (kphpCaptureStackBackTrace env framesToSkip n b flags thread).1.Below n ∧
      ∀ frames, (kphpCaptureStackBackTrace env framesToSkip n b flags thread).2 = some frames →
        frames ≤ n := by
  unfold kphpCaptureStackBackTrace
  simp only
  obtain ⟨hlen, hret⟩ :=
    hwalk n ((framesToSkip + 1) % ulongRange * 2 ^ 8 % ulongRange)
  have hb' : (b.store 0
      (env.walk n ((framesToSkip + 1) % ulongRange * 2 ^ 8 % ulongRange)).frames).Below n :=
    FrameBuf.below_store hb (by omega)
  split
  · exact ⟨hb', fun frames h => by cases h⟩
  · next r hr =>
      obtain ⟨hk, hkn⟩ := kernelFrames_below env ((framesToSkip + 1) % ulongRange)
        flags hb' (hret r hr)
      obtain ⟨hu, hun⟩ := userFrames_below flags thread hn hwalk hk hkn
      exact ⟨hu, fun frames h => by injection h with h; omega⟩

/-! ## The hash and the copy -/

theorem backTraceHash_eq_sum (b : FrameBuf) (n : Nat) :
    backTraceHash b n = ((b.take n).map fun frame => frame.toNat % 2 ^ 32).sum % 2 ^ 32 := by
  induction n with
  | zero => rfl
  | succ n ih =>
      rw [backTraceHash, ih]
      simp only [FrameBuf.take, List.range_succ, List.map_append, List.map_cons,
        List.map_nil, List.sum_append, List.sum_cons, List.sum_nil]
      omega

theorem FrameBuf.take_store (b : FrameBuf) (frames : List UInt64) :
    (b.store 0 frames).take frames.length = frames := by
  refine List.ext_getElem (by simp [FrameBuf.take]) fun i h₁ h₂ => ?_
  simp only [FrameBuf.take, FrameBuf.store, List.getElem_map, List.getElem_range]
  rw [if_pos ⟨Nat.zero_le _, by omega⟩, Nat.sub_zero, List.getD_eq_getElem _ _ h₂]

/-! ## The object -/

/-- The promise of one capture of another thread's stack: the APC's writes lie
inside the object as it was requested, the object counts at most
`framesToCapture` frames, and a successful call hands exactly those frames, and
the sum of their low halves, to the caller. -/
structure CaptureSafe (framesToCapture : UInt32) (caller : FrameBuf) (doHash : Bool)
    (r : ThreadCapture) : Prop where
  inside : ∀ object, r.object = some object → ∀ slot ∈ object.buf.log,
    backTraceOffset + sizeofPointer * slot + sizeofPointer ≤ object.size
  captured_le : ∀ object, r.object = some object →
    object.capturedFrames ≤ framesToCapture.toNat
  delivered : r.status = some statusSuccess → ∃ object, r.object = some object ∧
    r.capturedFrames = object.capturedFrames ∧
    r.caller.take object.capturedFrames = object.buf.take object.capturedFrames ∧
    r.caller.log = caller.log ++ List.range object.capturedFrames ∧
    r.backTraceHash = if doHash then
      some (((object.buf.take object.capturedFrames).map
        fun frame => frame.toNat % 2 ^ 32).sum % 2 ^ 32) else none

/-- The environments of a capture of another thread, every walk conforming. -/
def ThreadEnv.Conforms (env : ThreadEnv) : Prop :=
  env.sameThread = false ∧ ∀ count flags, (env.walk count flags).Conforms count

/-- The frame counts whose object is large enough, or refused. -/
def roomForFrames (framesToCapture : UInt32) : Prop :=
  framesToCapture.toNat ≤ 1 ∨
    2 ^ 32 ≤ framesToCapture.toNat + sizeofBackTraceObject

theorem captureIntoObject_spec {env : ThreadEnv} (size : Nat)
    (framesToSkip framesToCapture flags : UInt32) (doHash : Bool) (henv : env.Conforms) :
    let object := (captureIntoObject env size framesToSkip framesToCapture doHash flags).1
    object.size = size ∧ object.buf.Below framesToCapture.toNat ∧
    object.capturedFrames ≤ framesToCapture.toNat ∧
    ((captureIntoObject env size framesToSkip framesToCapture doHash flags).2 = true →
      object.backTraceHash =
        if doHash then backTraceHash object.buf object.capturedFrames else 0) := by
  have hempty : (FrameBuf.mk env.slots []).Below framesToCapture.toNat :=
    fun slot hslot => absurd hslot List.not_mem_nil
  obtain ⟨hbelow, hcount⟩ := capture_below framesToSkip.toNat flags env.threadContext
    framesToCapture.toNat_lt henv.2 hempty
  unfold captureIntoObject
  simp only
  split
  · next hnone => exact ⟨rfl, hbelow, Nat.zero_le _, fun h => by cases h⟩
  · next n hn => exact ⟨rfl, hbelow, hcount n hn, fun _ => rfl⟩

theorem captureSafe_of_unsuccessful {framesToCapture : UInt32} {caller : FrameBuf}
    {doHash : Bool} {r : ThreadCapture} (hstatus : r.status ≠ some statusSuccess)
    (hobject : ∀ object, r.object = some object →
      (∀ slot ∈ object.buf.log,
        backTraceOffset + sizeofPointer * slot + sizeofPointer ≤ object.size) ∧
      object.capturedFrames ≤ framesToCapture.toNat) :
    CaptureSafe framesToCapture caller doHash r :=
  ⟨fun object h => (hobject object h).1, fun object h => (hobject object h).2,
    fun h => absurd h hstatus⟩

theorem captureSafe_of_completed {framesToCapture : UInt32} {caller : FrameBuf}
    {doHash : Bool} {object : BackTraceObject}
    (hinside : ∀ slot ∈ object.buf.log,
      backTraceOffset + sizeofPointer * slot + sizeofPointer ≤ object.size)
    (hcount : object.capturedFrames ≤ framesToCapture.toNat)
    (hhash : object.backTraceHash =
      if doHash then backTraceHash object.buf object.capturedFrames else 0) :
    CaptureSafe framesToCapture caller doHash
      ⟨some statusSuccess, caller.store 0 (object.buf.take object.capturedFrames),
        object.capturedFrames, if doHash then some object.backTraceHash else none,
        some object⟩ := by
  have hlen : (object.buf.take object.capturedFrames).length = object.capturedFrames := by
    simp [FrameBuf.take]
  refine ⟨fun o h => ?_, fun o h => ?_, fun _ => ⟨object, rfl, rfl, ?_, ?_, ?_⟩⟩
  · injection h with h
    subst h
    exact hinside
  · injection h with h
    subst h
    exact hcount
  · have htake := FrameBuf.take_store caller (object.buf.take object.capturedFrames)
    rwa [hlen] at htake
  · simp only [FrameBuf.store]
    rw [hlen]
    simp
  · simp only
    rw [hhash, backTraceHash_eq_sum]
    split <;> rfl

theorem captureSafe_of_room {env : ThreadEnv} {framesToSkip framesToCapture flags : UInt32}
    {caller : FrameBuf} {doHash : Bool} (hroom : roomForFrames framesToCapture)
    (henv : env.Conforms) :
    CaptureSafe framesToCapture caller doHash
      (kphCaptureStackBackTraceThread env framesToSkip framesToCapture caller doHash flags) := by
  have hlt : framesToCapture.toNat < 2 ^ 32 := framesToCapture.toNat_lt
  unfold kphCaptureStackBackTraceThread
  rw [henv.1]
  simp only [Bool.false_eq_true, if_false]
  rw [rtlULongAdd_eq hlt (by decide)]
  by_cases hov : framesToCapture.toNat + sizeofBackTraceObject < 2 ^ 32
  · rw [if_pos hov]
    simp only
    have hone : framesToCapture.toNat ≤ 1 := by
      rcases hroom with h | h
      · exact h
      · omega
    split
    · next hfail =>
        refine captureSafe_of_unsuccessful ?_ (fun object h => by cases h)
        intro heq
        injection heq with heq
        rw [heq] at hfail
        exact absurd hfail (by decide)
    · split
      · refine captureSafe_of_unsuccessful ?_ (fun object h => by cases h)
        intro heq
        injection heq with heq
        exact absurd heq (by decide)
      · obtain ⟨hsize, hbelow, hcount, hhash⟩ := captureIntoObject_spec
          (framesToCapture.toNat + sizeofBackTraceObject) framesToSkip framesToCapture
          flags doHash henv
        generalize captureIntoObject env
          (framesToCapture.toNat + sizeofBackTraceObject) framesToSkip framesToCapture
          doHash flags = captured at *
        -- At most one frame: element 0 is the only one written.
        have hinside : ∀ slot ∈ captured.1.buf.log,
            backTraceOffset + sizeofPointer * slot + sizeofPointer ≤ captured.1.size := by
          intro slot hslot
          have := hbelow slot hslot
          rw [hsize, sizeofBackTraceObject]
          obtain rfl : slot = 0 := by omega
          omega
        split
        · next ran hran =>
            refine captureSafe_of_unsuccessful ?_ (fun object h => ?_)
            · intro heq
              injection heq with heq
              exact absurd heq (by decide)
            · simp only at h
              split at h
              · injection h with h
                subst h
                exact ⟨hinside, hcount⟩
              · cases h
        · split
          · next hok => exact captureSafe_of_completed hinside hcount (hhash hok)
          · refine captureSafe_of_unsuccessful (fun h => by cases h) (fun object h => ?_)
            injection h with h
            subst h
            exact ⟨hinside, hcount⟩
  · rw [if_neg hov]
    refine captureSafe_of_unsuccessful ?_ (fun object h => by cases h)
    intro heq
    injection heq with heq
    exact absurd heq (by decide)

/-- The walk that fills its whole buffer and returns its size. -/
def fullWalk (n _flags : Nat) : Walk := ⟨List.replicate n 0, some n⟩

/-- Another thread, an object that is created, an APC that completes, and walks
that fill their buffer. -/
def fullEnv : ThreadEnv where
  walk := fullWalk
  images := ⟨0, 0, 0, 0⟩
  dispatchLevel := false
  sameThread := false
  createObject := statusSuccess
  threadContext := none
  slots := fun _ => 0
  insertQueueApc := true
  outcome := .completed

theorem fullEnv_conforms : fullEnv.Conforms := by
  refine ⟨rfl, fun count flags => ⟨?_, fun r hr => ?_⟩⟩
  · exact Nat.le_of_eq (List.length_replicate)
  · have hr' : some count = some r := hr
    injection hr' with hr'
    omega

theorem mem_log_store {b : FrameBuf} {i : Nat} {frames : List UInt64} {slot : Nat}
    (h : slot ∈ b.log) : slot ∈ (b.store i frames).log :=
  List.mem_append.mpr (Or.inl h)

theorem mem_log_capture {env : CaptureEnv} {framesToSkip n slot : Nat} {b : FrameBuf}
    {flags : UInt32} {thread : Option Bool}
    (h : slot < (env.walk n
      ((framesToSkip + 1) % ulongRange * 2 ^ 8 % ulongRange)).frames.length) :
    slot ∈ (kphpCaptureStackBackTrace env framesToSkip n b flags thread).1.log := by
  have hsentinel : ∀ (b : FrameBuf) (frames : Nat), slot ∈ b.log →
      slot ∈ (kphpTryAddSentinelFrame n b frames flags).1.log := by
    intro b frames hb
    unfold kphpTryAddSentinelFrame
    repeat' split
    all_goals first | exact hb | exact mem_log_store hb
  have hkernel : ∀ (b : FrameBuf) (skip frames : Nat), slot ∈ b.log →
      slot ∈ (kernelFrames env skip b frames flags).1.log := by
    intro b skip frames hb
    unfold kernelFrames
    simp only
    repeat' split
    all_goals first | exact hb | exact mem_log_store hb
  have huser : ∀ (b : FrameBuf) (frames : Nat), slot ∈ b.log →
      slot ∈ (userFrames env n b frames flags thread).1.log := by
    intro b frames hb
    unfold userFrames
    simp only
    repeat' split
    all_goals first
      | exact hb
      | exact hsentinel _ _ hb
      | exact mem_log_store hb
      | exact hsentinel _ _ (mem_log_store hb)
  have hwalk : slot ∈ (b.store 0 (env.walk n
      ((framesToSkip + 1) % ulongRange * 2 ^ 8 % ulongRange)).frames).log := by
    refine List.mem_append.mpr (Or.inr (List.mem_map.mpr ⟨slot, List.mem_range.mpr h, ?_⟩))
    omega
  unfold kphpCaptureStackBackTrace
  simp only
  split
  · exact hwalk
  · exact huser _ _ (hkernel _ _ _ hwalk)

/-- With two frames or more, and no overflow of the size, a full walk writes
past the object. -/
theorem not_captureSafe_of_many {framesToSkip framesToCapture flags : UInt32}
    {caller : FrameBuf} {doHash : Bool} (hroom : ¬ roomForFrames framesToCapture) :
    ¬ CaptureSafe framesToCapture caller doHash
      (kphCaptureStackBackTraceThread fullEnv framesToSkip framesToCapture caller doHash
        flags) := by
  intro hsafe
  have hlt : framesToCapture.toNat < 2 ^ 32 := framesToCapture.toNat_lt
  rw [roomForFrames, not_or, Nat.not_le, Nat.not_le] at hroom
  obtain ⟨htwo, hov⟩ := hroom
  have hslot : framesToCapture.toNat - 1 ∈ (kphpCaptureStackBackTrace fullEnv.toCaptureEnv
      framesToSkip.toNat framesToCapture.toNat ⟨fullEnv.slots, []⟩ flags
      fullEnv.threadContext).1.log := by
    refine mem_log_capture ?_
    simp only [fullEnv, fullWalk, List.length_replicate]
    omega
  have hobject : ∃ object, (kphCaptureStackBackTraceThread fullEnv framesToSkip
      framesToCapture caller doHash flags).object = some object ∧
      object.size = framesToCapture.toNat + sizeofBackTraceObject ∧
      framesToCapture.toNat - 1 ∈ object.buf.log := by
    have hsize := (captureIntoObject_spec (framesToCapture.toNat + sizeofBackTraceObject)
      framesToSkip framesToCapture flags doHash fullEnv_conforms).1
    refine ⟨(captureIntoObject fullEnv (framesToCapture.toNat + sizeofBackTraceObject)
      framesToSkip framesToCapture doHash flags).1, ?_, hsize, ?_⟩
    · unfold kphCaptureStackBackTraceThread
      rw [rtlULongAdd_eq hlt (by decide), if_pos hov,
        if_neg (show ¬ fullEnv.sameThread = true by decide)]
      simp only
      rw [if_neg (show ¬ ntSuccess fullEnv.createObject = false by decide),
        if_neg (show ¬ fullEnv.insertQueueApc = false by decide)]
      simp only [show fullEnv.outcome = .completed from rfl]
      split <;> rfl
    · unfold captureIntoObject
      simp only
      split
      · exact hslot
      · exact hslot
  obtain ⟨object, hsome, hsize, hmem⟩ := hobject
  have hin := hsafe.inside object hsome _ hmem
  rw [hsize, sizeofBackTraceObject, sizeofPointer] at hin
  omega

/-- A request of `framesToCapture` frames of another thread is safe whatever
the walks do exactly when it asks for at most one frame, or for so many that
the size of the object overflows and the request is refused. -/
theorem captureThread_safe_iff (framesToSkip framesToCapture flags : UInt32)
    (caller : FrameBuf) (doHash : Bool) :
    (∀ env : ThreadEnv, env.Conforms → CaptureSafe framesToCapture caller doHash
      (kphCaptureStackBackTraceThread env framesToSkip framesToCapture caller doHash
        flags)) ↔ roomForFrames framesToCapture := by
  constructor
  · intro h
    by_contra hroom
    exact not_captureSafe_of_many hroom (h fullEnv fullEnv_conforms)
  · intro hroom env henv
    exact captureSafe_of_room hroom henv

/-- Two frames of another thread, walked in full, do not fit the object. -/
theorem captureThread_two_frames_overflow :
    ¬ (∀ (env : ThreadEnv) (framesToSkip framesToCapture flags : UInt32)
        (caller : FrameBuf) (doHash : Bool), env.Conforms →
        CaptureSafe framesToCapture caller doHash
          (kphCaptureStackBackTraceThread env framesToSkip framesToCapture caller doHash
            flags)) := by
  intro h
  have hroom : ¬ roomForFrames 2 := by
    rw [roomForFrames]
    decide
  exact not_captureSafe_of_many hroom
    (h fullEnv 0 2 0 ⟨fun _ => 0, []⟩ false fullEnv_conforms)

end SystemInformer.Driver
