import SystemInformer.Driver.DynData

/-!
# Activating dynamic data: what is copied and what is freed

Two names are wrong in `KphActivateDynData`. The signature is probed with the length of
the configuration, so a signature of any other length is copied from a range that was not
the one probed. And on the way out the signature is compared with `DynData`, so that a
call from kernel mode, which allocates nothing, frees the signature it was given.

The trace of a call has three parts: the blocks allocated, the captures, the blocks
freed. Each part of the property looks at one of them, and the condition under which a
call has the property is read off them. What a failing call leaves active is the same for
every call: only the last statement of `KphpActivateDynData` replaces it.
-/

namespace SystemInformer.Driver

open KphLib

/-! ## The property -/

def allocatedBy (trace : List BufferEvent) : List UInt64 :=
  trace.filterMap fun
    | .allocate address => some address
    | _ => none

def freedBy (trace : List BufferEvent) : List UInt64 :=
  trace.filterMap fun
    | .free address => some address
    | _ => none

def ActivateArgs.length (args : ActivateArgs) : CallerBuffer → Nat
  | .dynData => args.dynDataLength.toNat
  | .signature => args.signatureLength.toNat

/-- Each byte copied lies in a range probed before for its buffer, with the length of that
buffer. -/
def ProbedCopies (args : ActivateArgs) (trace : List BufferEvent) : Prop :=
  ∀ before buffer n after, trace = before ++ .copy buffer n :: after →
    ∀ i < n, .probe buffer (args.length buffer) ∈ before ∧ i < args.length buffer

structure ActivateMeets (args : ActivateArgs) (active : Option KphDyn) (r : ActivateResult) :
    Prop where
  copies : args.accessMode = .userMode → ProbedCopies args r.trace
  frees : (freedBy r.trace).Perm (allocatedBy r.trace)
  caller : ∀ buffer, buffer = args.dynData ∨ buffer = args.signature →
    buffer ∉ allocatedBy r.trace → buffer ∉ freedBy r.trace
  failed : ¬ ntSuccess r.status → r.active = active

/-! ## The condition -/

def ActivateArgs.Valid (args : ActivateArgs) : Prop :=
  args.dynData ≠ 0 ∧ args.dynDataLength ≠ 0 ∧ args.signature ≠ 0 ∧ args.signatureLength ≠ 0

instance {args : ActivateArgs} : Decidable args.Valid :=
  inferInstanceAs (Decidable (_ ∧ _ ∧ _ ∧ _))

/-- The copy gets as far as its first byte. -/
def Fault.copiesAny (fault : Fault) : Prop := ∀ done status, fault = some (done, status) → 0 < done

/-- The call gets to copy a byte of the signature. -/
def CopiesSignature (space : AddressSpace) (args : ActivateArgs) (env : ActivateEnv) : Prop :=
  env.allocateDynData ≠ 0 ∧ env.allocateSignature ≠ 0 ∧
    probeForRead space (probeInputBytes args.dynData args.dynDataLength) = none ∧
    env.copyDynData = none ∧
    probeForRead space (probeInputBytes args.signature args.dynDataLength) = none ∧
    Fault.copiesAny env.copySignature

/-- When a call has the property. From user mode: the signature is as long as the
configuration, or none of its bytes is copied, and no block was allocated at the address
the caller gave for the configuration. From kernel mode: both pointers are the same. -/
def ActivateSound (space : AddressSpace) (args : ActivateArgs) (env : ActivateEnv) : Prop :=
  args.Valid → match args.accessMode with
    | .userMode =>
        (CopiesSignature space args env → args.signatureLength = args.dynDataLength) ∧
          env.allocateDynData ≠ args.dynData ∧
          (env.allocateDynData ≠ 0 → env.allocateSignature ≠ args.dynData)
    | .kernelMode => args.signature = args.dynData

/-! ## Reading a trace from its start -/

section

variable {args : ActivateArgs} {before : List BufferEvent}

/-- `ProbedCopies` of what follows `before`. -/
def ProbedAfter (args : ActivateArgs) (before trace : List BufferEvent) : Prop :=
  ∀ mid buffer n after, trace = mid ++ .copy buffer n :: after →
    ∀ i < n, .probe buffer (args.length buffer) ∈ before ++ mid ∧ i < args.length buffer

theorem probedCopies_iff {trace : List BufferEvent} :
    ProbedCopies args trace ↔ ProbedAfter args [] trace := by
  simp [ProbedCopies, ProbedAfter]

@[simp] theorem probedAfter_nil : ProbedAfter args before [] := by
  intro mid buffer n after h
  simp at h

theorem probedAfter_cons {e : BufferEvent} {t : List BufferEvent} :
    ProbedAfter args before (e :: t) ↔
      (∀ buffer n, e = .copy buffer n →
        ∀ i < n, .probe buffer (args.length buffer) ∈ before ∧ i < args.length buffer) ∧
      ProbedAfter args (before ++ [e]) t := by
  constructor
  · intro h
    constructor
    · intro buffer n he
      have := h [] buffer n t (by simp [he])
      simpa using this
    · intro mid buffer n after ht
      have := h (e :: mid) buffer n after (by simp [ht])
      simpa using this
  · intro h mid buffer n after heq
    obtain ⟨hhead, htail⟩ := h
    cases mid with
    | nil =>
        simp only [List.nil_append, List.cons.injEq] at heq
        simpa using hhead buffer n heq.1
    | cons e' mid =>
        simp only [List.cons_append, List.cons.injEq] at heq
        obtain ⟨rfl, rfl⟩ := heq
        simpa using htail mid buffer n after rfl

@[simp] theorem probedAfter_allocate {a : UInt64} {t : List BufferEvent} :
    ProbedAfter args before (.allocate a :: t) ↔
      ProbedAfter args (before ++ [.allocate a]) t := by
  simp [probedAfter_cons]

@[simp] theorem probedAfter_free {a : UInt64} {t : List BufferEvent} :
    ProbedAfter args before (.free a :: t) ↔ ProbedAfter args (before ++ [.free a]) t := by
  simp [probedAfter_cons]

@[simp] theorem probedAfter_probe {buffer : CallerBuffer} {n : Nat} {t : List BufferEvent} :
    ProbedAfter args before (.probe buffer n :: t) ↔
      ProbedAfter args (before ++ [.probe buffer n]) t := by
  simp [probedAfter_cons]

@[simp] theorem probedAfter_copy {buffer : CallerBuffer} {n : Nat} {t : List BufferEvent} :
    ProbedAfter args before (.copy buffer n :: t) ↔
      (∀ i < n, .probe buffer (args.length buffer) ∈ before ∧ i < args.length buffer) ∧
      ProbedAfter args (before ++ [.copy buffer n]) t := by
  simp [probedAfter_cons]

theorem probedAfter_append {t u : List BufferEvent} :
    ProbedAfter args before (t ++ u) ↔
      ProbedAfter args before t ∧ ProbedAfter args (before ++ t) u := by
  induction t generalizing before with
  | nil => simp
  | cons e t ih =>
      rw [List.cons_append, probedAfter_cons, probedAfter_cons, ih]
      simp [and_assoc]

end

/-! ## The parts of a trace -/

section

variable {space : AddressSpace} {args : ActivateArgs} {env : ActivateEnv}
  {before : List BufferEvent}

@[simp] theorem allocatedBy_append {t u : List BufferEvent} :
    allocatedBy (t ++ u) = allocatedBy t ++ allocatedBy u := List.filterMap_append

@[simp] theorem freedBy_append {t u : List BufferEvent} :
    freedBy (t ++ u) = freedBy t ++ freedBy u := List.filterMap_append

theorem allocatedBy_activateExit {d s : UInt64} : allocatedBy (activateExit args d s) = [] := by
  rw [activateExit, allocatedBy_append]
  split <;> split <;> rfl

theorem freedBy_activateExit {d s : UInt64} :
    freedBy (activateExit args d s) = [d, s].filter fun a => a ≠ 0 ∧ a ≠ args.dynData := by
  rw [activateExit, freedBy_append]
  by_cases hd : d ≠ 0 ∧ d ≠ args.dynData <;> by_cases hs : s ≠ 0 ∧ s ≠ args.dynData <;>
    simp [freedBy, hd, hs]

theorem probedAfter_activateExit {d s : UInt64} :
    ProbedAfter args before (activateExit args d s) := by
  rw [activateExit, probedAfter_append]
  constructor
  · split <;> simp
  · by_cases hs : s ≠ 0 ∧ s ≠ args.dynData <;> simp [hs]

theorem probeAndCopy_blocks (space : AddressSpace) (buffer : CallerBuffer) (pointer : UInt64)
    (probed copied : UInt32) (fault : Fault) :
    allocatedBy (probeAndCopy space buffer pointer probed copied fault).1 = [] ∧
      freedBy (probeAndCopy space buffer pointer probed copied fault).1 = [] := by
  rw [probeAndCopy.eq_def]
  split
  · simp [allocatedBy, freedBy]
  · split <;> simp [allocatedBy, freedBy]

theorem captureBuffers_blocks (space : AddressSpace) (args : ActivateArgs)
    (env : ActivateEnv) : allocatedBy (captureBuffers space args env).1 = [] ∧
      freedBy (captureBuffers space args env).1 = [] := by
  obtain ⟨ha, hf⟩ := probeAndCopy_blocks space .dynData args.dynData args.dynDataLength
    args.dynDataLength env.copyDynData
  rw [captureBuffers]
  split
  · next heq => rw [heq] at ha hf; exact ⟨ha, hf⟩
  · next heq =>
      rw [heq] at ha hf
      simp only [allocatedBy_append, freedBy_append, ha, hf, List.nil_append]
      exact probeAndCopy_blocks _ _ _ _ _ _

/-- A capture is covered exactly when it probes with the length it copies, or copies
nothing. -/
theorem probedAfter_probeAndCopy {buffer : CallerBuffer} {pointer : UInt64}
    {probed copied : UInt32} {fault : Fault} (hlen : copied.toNat = args.length buffer)
    (hpos : copied ≠ 0) (hnew : ∀ n, .probe buffer n ∉ before) :
    ProbedAfter args before (probeAndCopy space buffer pointer probed copied fault).1 ↔
      (probeForRead space (probeInputBytes pointer probed) = none → fault.copiesAny →
        probed = copied) := by
  have hlength : 0 < args.length buffer := by
    rw [← hlen]
    exact Nat.pos_of_ne_zero fun h => hpos (UInt32.toNat_inj.mp h)
  have hsame : args.length buffer = probed.toNat ↔ probed = copied := by
    rw [← hlen, eq_comm, UInt32.toNat_inj]
  rw [probeAndCopy.eq_def]
  cases hprobe : probeForRead space (probeInputBytes pointer probed) with
  | some status => simp
  | none =>
      cases fault with
      | none =>
          simp only [probedAfter_probe, probedAfter_copy, probedAfter_nil, and_true]
          constructor
          · intro h _ _
            obtain ⟨hmem, -⟩ := h 0 (hlen ▸ hlength)
            simpa [hnew, hsame] using hmem
          · intro h i hi
            have heq := h trivial (by intro done status hf; cases hf)
            simp [hsame.mpr heq, heq, hi]
      | some f =>
          obtain ⟨done, status⟩ := f
          simp only [probedAfter_probe, probedAfter_copy, probedAfter_nil, and_true]
          constructor
          · intro h _ hany
            have hdone := hany done status rfl
            obtain ⟨hmem, -⟩ := h 0 (by omega)
            simpa [hnew, hsame] using hmem
          · intro h i hi
            have heq := h trivial (by
              intro done' status' hf
              cases hf
              omega)
            exact ⟨by simp [hsame.mpr heq], by omega⟩

/-- The `__try` block is covered exactly when it copies no byte of a signature whose
length is not the one probed. -/
theorem probedAfter_captureBuffers (hvalid : args.Valid)
    (hnew : ∀ buffer n, .probe buffer n ∉ before) :
    ProbedAfter args before (captureBuffers space args env).1 ↔
      (probeForRead space (probeInputBytes args.dynData args.dynDataLength) = none →
        env.copyDynData = none →
        probeForRead space (probeInputBytes args.signature args.dynDataLength) = none →
        Fault.copiesAny env.copySignature → args.signatureLength = args.dynDataLength) := by
  obtain ⟨-, hdynLength, -, hsigLength⟩ := hvalid
  have hdyn : ProbedAfter args before (probeAndCopy space .dynData args.dynData
      args.dynDataLength args.dynDataLength env.copyDynData).1 :=
    (probedAfter_probeAndCopy rfl hdynLength (hnew _)).mpr fun _ _ => rfl
  rw [captureBuffers]
  cases hcase : probeAndCopy space .dynData args.dynData args.dynDataLength
      args.dynDataLength env.copyDynData with
  | mk trace raised =>
      rw [hcase] at hdyn
      rw [probeAndCopy.eq_def] at hcase
      cases raised with
      | some status =>
          -- The first capture raised: either its probe or its copy did.
          simp only [hdyn, true_iff]
          intro hprobe hcopy
          simp [hprobe, hcopy] at hcase
      | none =>
          have hpasses : probeForRead space
              (probeInputBytes args.dynData args.dynDataLength) = none ∧
              env.copyDynData = none ∧
              trace = [.probe .dynData args.dynDataLength.toNat,
                .copy .dynData args.dynDataLength.toNat] := by
            split at hcase
            · cases hcase
            · next hprobe =>
                split at hcase
                · next hcopy =>
                    cases hcase
                    exact ⟨hprobe, hcopy, rfl⟩
                · cases hcase
          obtain ⟨hprobe, hcopy, rfl⟩ := hpasses
          simp only [probedAfter_append, hdyn, true_and, hprobe, hcopy, true_imp_iff]
          rw [probedAfter_probeAndCopy rfl hsigLength (by simp [hnew])]
          exact imp_congr Iff.rfl (imp_congr Iff.rfl eq_comm)

end

/-! ## Every exit -/

section

variable {space : AddressSpace} {args : ActivateArgs} {env : ActivateEnv}
  {active : Option KphDyn}

theorem kphpActivateDynData_failed {outcomes : DynOutcomes} {config : Bytes.Mem}
    {length : UInt32} {signed : Bool}
    (h : ¬ ntSuccess (kphpActivateDynData outcomes config length signed active).1) :
    (kphpActivateDynData outcomes config length signed active).2 = active := by
  rw [kphpActivateDynData] at h ⊢
  split at h
  · next hsig => rw [if_pos hsig]
  · next hsig =>
      rw [if_neg hsig]
      dsimp only at h ⊢
      split at h
      · next hkernel => rw [if_pos hkernel]
      · next hkernel =>
          rw [if_neg hkernel]
          split at h
          · next hcreate => rw [if_pos hcreate]
          · next hcreate => exact absurd h hcreate

theorem kphActivateDynData_failed
    (h : ¬ ntSuccess (kphActivateDynData space args env active).status) :
    (kphActivateDynData space args env active).active = active := by
  rw [kphActivateDynData.eq_def] at h ⊢
  split at h
  · next hargs => rw [if_pos hargs]
  · next hargs =>
      rw [if_neg hargs]
      split at h
      · next hsig => rw [if_pos hsig]
      · next hsig =>
          rw [if_neg hsig]
          cases hmode : args.accessMode with
          | kernelMode =>
              rw [hmode] at h
              exact kphpActivateDynData_failed h
          | userMode =>
              rw [hmode] at h
              dsimp only at h ⊢
              split at h
              · next hdyn => rw [if_pos hdyn]
              · next hdyn =>
                  rw [if_neg hdyn]
                  split at h
                  · next hsigBlock => rw [if_pos hsigBlock]
                  · next hsigBlock =>
                      rw [if_neg hsigBlock]
                      split at h
                      · rfl
                      · exact kphpActivateDynData_failed h

theorem kphActivateDynData_trace :
    (kphActivateDynData space args env active).trace =
      if ¬ args.Valid then []
      else match args.accessMode with
        | .kernelMode => activateExit args args.dynData args.signature
        | .userMode =>
            if env.allocateDynData = 0 then []
            else if env.allocateSignature = 0 then
              .allocate env.allocateDynData :: activateExit args env.allocateDynData 0
            else
              [.allocate env.allocateDynData, .allocate env.allocateSignature] ++
                (captureBuffers space args env).1 ++
                activateExit args env.allocateDynData env.allocateSignature := by
  have hnone : activateExit args 0 0 = [] := by simp [activateExit]
  rw [kphActivateDynData.eq_def, hnone]
  by_cases hargs : args.dynData = 0 ∨ args.dynDataLength = 0
  · rw [if_pos hargs, if_pos fun hvalid => hargs.elim hvalid.1 hvalid.2.1]
  by_cases hsig : args.signature = 0 ∨ args.signatureLength = 0
  · rw [if_neg hargs, if_pos hsig,
      if_pos fun hvalid => hsig.elim hvalid.2.2.1 hvalid.2.2.2]
  have hvalid : args.Valid := by
    simp only [not_or] at hargs hsig
    exact ⟨hargs.1, hargs.2, hsig.1, hsig.2⟩
  rw [if_neg hargs, if_neg hsig, if_neg (not_not.mpr hvalid)]
  cases hmode : args.accessMode with
  | kernelMode => rfl
  | userMode =>
      dsimp only
      split
      · rfl
      · split
        · rfl
        · split
          · next heq => rw [heq]
          · next heq => rw [heq]

theorem probedCopies_nil : ProbedCopies args [] := probedCopies_iff.mpr probedAfter_nil

/-- The blocks that an exit frees are those that were allocated exactly when none of them
is at the caller's address. -/
theorem filter_perm_iff {blocks : List UInt64} {p : UInt64} (hnull : ∀ a ∈ blocks, a ≠ 0) :
    (blocks.filter fun a => a ≠ 0 ∧ a ≠ p).Perm blocks ↔ ∀ a ∈ blocks, a ≠ p := by
  constructor
  · intro h a ha
    have hmem := h.mem_iff.mpr ha
    simp only [List.mem_filter, decide_eq_true_eq] at hmem
    exact hmem.2.2
  · intro h
    rw [List.filter_eq_self.mpr]
    intro a ha
    simp [hnull a ha, h a ha]

theorem ActivateMeets.of_perm {r : ActivateResult}
    (hcopies : args.accessMode = .userMode → ProbedCopies args r.trace)
    (hfrees : (freedBy r.trace).Perm (allocatedBy r.trace))
    (hfailed : ¬ ntSuccess r.status → r.active = active) : ActivateMeets args active r where
  copies := hcopies
  frees := hfrees
  caller _ _ hnew hfreed := hnew (hfrees.mem_iff.mp hfreed)
  failed := hfailed

theorem activateMeets_iff :
    ActivateMeets args active (kphActivateDynData space args env active) ↔
      (args.accessMode = .userMode →
        ProbedCopies args (kphActivateDynData space args env active).trace) ∧
      (freedBy (kphActivateDynData space args env active).trace).Perm
        (allocatedBy (kphActivateDynData space args env active).trace) := by
  constructor
  · intro h
    exact ⟨h.copies, h.frees⟩
  · rintro ⟨hcopies, hfrees⟩
    exact .of_perm hcopies hfrees kphActivateDynData_failed

theorem kphActivateDynData_meets_iff (space : AddressSpace) (args : ActivateArgs)
    (env : ActivateEnv) (active : Option KphDyn) :
    ActivateMeets args active (kphActivateDynData space args env active) ↔
      ActivateSound space args env := by
  rw [activateMeets_iff, kphActivateDynData_trace, ActivateSound]
  by_cases hvalid : args.Valid
  · rw [if_neg (not_not.mpr hvalid)]
    simp only [hvalid, true_imp_iff]
    cases hmode : args.accessMode with
    | kernelMode =>
        simp only [reduceCtorEq, false_imp_iff, true_and, freedBy_activateExit,
          allocatedBy_activateExit, List.perm_nil, List.filter_eq_nil_iff]
        obtain ⟨-, -, hsig, -⟩ := hvalid
        simp [hsig]
    | userMode =>
        simp only [true_imp_iff, probedCopies_iff]
        by_cases hdyn : env.allocateDynData = 0
        · have hcopies : ¬ CopiesSignature space args env := fun h => h.1 hdyn
          simp [hdyn, hcopies, allocatedBy, freedBy, Ne.symm hvalid.1]
        by_cases hsig : env.allocateSignature = 0
        · have hcopies : ¬ CopiesSignature space args env := fun h => h.2.1 hsig
          have hprobed : ProbedAfter args []
              (.allocate env.allocateDynData :: activateExit args env.allocateDynData 0) :=
            probedAfter_allocate.mpr probedAfter_activateExit
          have hfreed : freedBy
              (.allocate env.allocateDynData :: activateExit args env.allocateDynData 0) =
              [env.allocateDynData].filter fun a => a ≠ 0 ∧ a ≠ args.dynData := by
            change freedBy (activateExit args env.allocateDynData 0) = _
            rw [freedBy_activateExit]
            simp [List.filter_cons]
          have hallocated : allocatedBy
              (.allocate env.allocateDynData :: activateExit args env.allocateDynData 0) =
              [env.allocateDynData] := by
            change _ :: allocatedBy (activateExit args env.allocateDynData 0) = _
            rw [allocatedBy_activateExit]
          rw [if_neg hdyn, if_pos hsig, hfreed, hallocated,
            filter_perm_iff (by simp [hdyn])]
          simp [hprobed, hcopies, hsig, Ne.symm hvalid.1]
        · have hperm : ([env.allocateDynData, env.allocateSignature].filter fun a =>
              a ≠ 0 ∧ a ≠ args.dynData).Perm [env.allocateDynData, env.allocateSignature] ↔ _ :=
            filter_perm_iff (by simp [hdyn, hsig])
          obtain ⟨halloc, hfree⟩ := captureBuffers_blocks space args env
          have hcopies : CopiesSignature space args env ↔
              probeForRead space (probeInputBytes args.dynData args.dynDataLength) = none ∧
              env.copyDynData = none ∧
              probeForRead space (probeInputBytes args.signature args.dynDataLength) = none ∧
              Fault.copiesAny env.copySignature := by
            simp [CopiesSignature, hdyn, hsig]
          rw [if_neg hdyn, if_neg hsig, probedAfter_append, probedAfter_append]
          simp only [freedBy_append, allocatedBy_append, halloc, hfree, freedBy_activateExit,
            allocatedBy_activateExit, List.append_nil]
          rw [show freedBy [.allocate env.allocateDynData, .allocate env.allocateSignature] = []
              from rfl,
            show allocatedBy [.allocate env.allocateDynData, .allocate env.allocateSignature] =
              [env.allocateDynData, env.allocateSignature] from rfl]
          simp only [List.nil_append]
          rw [hperm, probedAfter_captureBuffers hvalid (by simp), hcopies]
          simp [probedAfter_activateExit, hdyn, and_imp]
  · rw [if_pos hvalid]
    simp [hvalid, probedCopies_nil, allocatedBy, freedBy]

/-! ## The two slips -/

def dynOutcomes : DynOutcomes where
  modules := ⟨⟨false, 0, 0, 0, 0⟩, ⟨false, 0, 0, 0, 0⟩, ⟨false, 0, 0, 0, 0⟩⟩
  verifyBuffer := statusSuccess
  createObject := statusSuccess

def activateEnv : ActivateEnv where
  toDynOutcomes := dynOutcomes
  allocateDynData := 0xFFFF8000
  allocateSignature := 0xFFFF9000
  copyDynData := none
  copySignature := none
  config := fun _ => 0

/-- A kernel mode caller loses its signature; a user mode caller gets 512 bytes copied of
which one was probed. -/
theorem kphActivateDynData_slips :
    ¬ ActivateMeets ⟨0x1000, 547, 0x2000, 512, .kernelMode⟩ none
        (kphActivateDynData ⟨0x7FFF0000, 0x7FFEFFFF⟩ ⟨0x1000, 547, 0x2000, 512, .kernelMode⟩
          activateEnv none) ∧
      ¬ ActivateMeets ⟨0x1000, 1, 0x2000, 512, .userMode⟩ none
        (kphActivateDynData ⟨0x7FFF0000, 0x7FFEFFFF⟩ ⟨0x1000, 1, 0x2000, 512, .userMode⟩
          activateEnv none) := by
  constructor
  · intro h
    have hfree : (0x2000 : UInt64) ∈ freedBy (kphActivateDynData ⟨0x7FFF0000, 0x7FFEFFFF⟩
        ⟨0x1000, 547, 0x2000, 512, .kernelMode⟩ activateEnv none).trace := by
      decide +kernel
    exact h.caller 0x2000 (Or.inr rfl) (by decide +kernel) hfree
  · intro h
    have htrace : (kphActivateDynData ⟨0x7FFF0000, 0x7FFEFFFF⟩
        ⟨0x1000, 1, 0x2000, 512, .userMode⟩ activateEnv none).trace =
        [.allocate 0xFFFF8000, .allocate 0xFFFF9000, .probe .dynData 1, .copy .dynData 1,
          .probe .signature 1] ++ .copy .signature 512 ::
          [.free 0xFFFF8000, .free 0xFFFF9000] := by
      decide +kernel
    obtain ⟨hmem, -⟩ := h.copies rfl _ _ _ _ htrace 0 (by decide)
    simp [ActivateArgs.length] at hmem

end

end SystemInformer.Driver
