import SystemInformer.Driver.ProtectionStart
import SystemInformer.Proofs.Protection

/-!
# A failed start keeps what it took

When the walk of `KphStartProtectingProcess` fails, the three fields of the process
context are set back, and they get the values they had, since a process that is not
protected has no masks. The handle tables are another matter: the handles of the processes
that the walk had come through have lost the access outside the masks, and nothing gives
it back.

A handle that cannot be decoded fails the call as well, but then none could be: the
callback gives up before it changes anything, in every table. So it is the failures of
whole processes that matter, a suppression check or an enumeration without dynamic data,
and what stands before the first of them in the list.
-/

namespace SystemInformer.Driver

section

variable {π τ : Type} [DecidableEq π]

/-! ## What is asked, and when it holds -/

/-- The granted accesses of a table, by handle. -/
def HandleList.grantedAccesses (handles : HandleList π τ) : List (Nat × AccessMask) :=
  handles.map fun h => (h.1, h.2.grantedAccess)

/-- A call that fails leaves the protection and every granted access as they were. -/
def StartAtomic (protection : ProtectionRecord) (tables : ProcessTables π τ)
    (r : StartResult π τ) : Prop :=
  ¬ ntSuccess r.status → r.protection = protection ∧ ∀ process,
    (r.tables process).map HandleList.grantedAccesses =
      (tables process).map HandleList.grantedAccesses

def ProtectionVisit.stops : ProtectionVisit → Bool
  | .stop _ => true
  | _ => false

def ProtectionVisit.walks : ProtectionVisit → Bool
  | .walk => true
  | _ => false

/-- The processes whose tables are walked through: those before the first that stops the
enumeration. -/
def walkedProcesses (w : ProtectionWorld π τ) (env : StartEnv π) (target : π)
    (tables : ProcessTables π τ) (processes : List π) : List π :=
  (processes.takeWhile fun p => !(visitProcess w env target tables p).stops).filter fun p =>
    (visitProcess w env target tables p).walks

/-- The entry is a user handle to the target or one of its threads with access outside the
mask. -/
def LosesAccess (w : ProtectionWorld π τ) (target : π) (protection : ProcessProtection)
    (h : Nat × HandleTableEntry π τ) : Prop :=
  isKernelHandle h.1 = false ∧ h.2.object.owner w = some target ∧
    ¬ Within (obpDecodeGrantedAccess h.2.grantedAccess) (protection.allowedMask h.2.object)

/-- No handle loses access before the enumeration stops, if it does and if handles can be
decoded at all. -/
def StartSound (w : ProtectionWorld π τ) (env : StartEnv π) (target : π) (args : StartArgs)
    (protection : ProtectionRecord) (tables : ProcessTables π τ) : Prop :=
  ∀ dyn, env.referenceDyn = some dyn → env.debugPrivilege = true →
    protection.1.isProtected = false → dyn.obDecodeShift ≠ ulongMax →
    (∃ p ∈ w.processes, (visitProcess w env target tables p).stops = true) →
    ∀ p ∈ walkedProcesses w env target tables w.processes, ∀ handles, tables p = .ok handles →
      ∀ h ∈ handles,
        ¬ LosesAccess w target ⟨true, args.processAllowedMask, args.threadAllowedMask⟩ h

/-! ## One table -/

variable {w : ProtectionWorld π τ} {env : StartEnv π} {dyn : ProtectionDyn} {target : π}
  {protection : ProcessProtection}

def keepEntry (w : ProtectionWorld π τ) (target : π) (protection : ProcessProtection)
    (h : Nat × HandleTableEntry π τ) : Nat × HandleTableEntry π τ :=
  if isKernelHandle h.1 = false ∧ h.2.object.owner w = some target then
    (h.1, h.2.strip (protection.allowedMask h.2.object))
  else h

theorem walkHandles_decodable (hdyn : dyn.obDecodeShift ≠ ulongMax)
    (handles : HandleList π τ) : walkHandles w dyn target protection handles =
      (handles.map (keepEntry w target protection), none) := by
  induction handles with
  | nil => rfl
  | cons h rest ih =>
      obtain ⟨handle, entry⟩ := h
      rw [walkHandles, kphpEnumProcessHandlesForProtection_eq, if_neg hdyn, ih, List.map_cons,
        keepEntry]
      cases hkernel : isKernelHandle handle with
      | true => simp
      | false =>
          by_cases howner : entry.object.owner w = some target
          · simp [howner]
          · simp [howner]

theorem walkHandles_undecodable (hdyn : dyn.obDecodeShift = ulongMax)
    (handles : HandleList π τ) : (walkHandles w dyn target protection handles).1 = handles := by
  induction handles with
  | nil => rfl
  | cons h rest ih =>
      obtain ⟨handle, entry⟩ := h
      rw [walkHandles, kphpEnumProcessHandlesForProtection_eq, if_pos hdyn]
      cases isKernelHandle handle with
      | true => simp [ih]
      | false => simp

omit [DecidableEq π] in
theorem strip_grantedAccess_iff (entry : HandleTableEntry π τ) (mask : AccessMask) :
    (entry.strip mask).grantedAccess = entry.grantedAccess ↔
      Within (obpDecodeGrantedAccess entry.grantedAccess) mask := by
  constructor
  · intro h
    rw [← h]
    exact entry.strip_within mask
  · intro h
    rw [HandleTableEntry.strip_of_within h]

theorem keepEntry_keepEntry (h : Nat × HandleTableEntry π τ) :
    keepEntry w target protection (keepEntry w target protection h) =
      keepEntry w target protection h := by
  obtain ⟨handle, entry⟩ := h
  by_cases hloses : isKernelHandle handle = false ∧ entry.object.owner w = some target
  · obtain ⟨access, hstrip⟩ := entry.strip_eq (protection.allowedMask entry.object)
    have hobject : (entry.strip (protection.allowedMask entry.object)).object = entry.object := by
      rw [hstrip]
    have hagain : (entry.strip (protection.allowedMask entry.object)).strip
        (protection.allowedMask entry.object) = entry.strip (protection.allowedMask entry.object) :=
      HandleTableEntry.strip_of_within (entry.strip_within _)
    simp only [keepEntry, if_pos hloses, hobject, hagain]
  · simp only [keepEntry, if_neg hloses]

theorem keepEntries_iff (handles : HandleList π τ) :
    HandleList.grantedAccesses (handles.map (keepEntry w target protection)) =
        HandleList.grantedAccesses handles ↔
      ∀ h ∈ handles, ¬ LosesAccess w target protection h := by
  rw [HandleList.grantedAccesses, HandleList.grantedAccesses, List.map_map, List.map_inj_left]
  refine forall₂_congr fun h _ => ?_
  rw [Function.comp_apply, keepEntry, LosesAccess]
  by_cases hloses : isKernelHandle h.1 = false ∧ h.2.object.owner w = some target
  · rw [if_pos hloses]
    simp [strip_grantedAccess_iff, hloses]
  · rw [if_neg hloses]
    simp only [true_iff]
    exact fun hall => hloses ⟨hall.1, hall.2.1⟩

/-! ## The enumeration -/

theorem visitProcess_congr {tables tables' : ProcessTables π τ} {process : π}
    (h : ∃ f : HandleList π τ → HandleList π τ, tables' process = (tables process).map f) :
    visitProcess w env target tables' process = visitProcess w env target tables process := by
  obtain ⟨f, hf⟩ := h
  rw [visitProcess, visitProcess, hf]
  cases tables process with
  | error status => rfl
  | ok handles =>
      simp only [Except.map, kphpEnumProcessContextsForProtection, kphEnumerateProcessHandlesEx]
      split
      · rfl
      · split
        · rfl
        · rfl
        · cases env.processDyn process with
          | none => rfl
          | some dyn =>
              dsimp only
              by_cases hdyn : dyn.htHandleContentionEvent = ulongMax ∨
                dyn.epObjectTable = ulongMax
              · rw [if_pos hdyn, if_pos hdyn]
              · rw [if_neg hdyn, if_neg hdyn]

def keepTable (w : ProtectionWorld π τ) (target : π) (protection : ProcessProtection)
    (table : Except NtStatus (HandleList π τ)) : Except NtStatus (HandleList π τ) :=
  table.map fun handles => handles.map (keepEntry w target protection)

theorem keepTable_keepTable (table : Except NtStatus (HandleList π τ)) :
    keepTable w target protection (keepTable w target protection table) =
      keepTable w target protection table := by
  cases table with
  | error status => rfl
  | ok handles =>
      simp only [keepTable, Except.map, List.map_map, Except.ok.injEq]
      exact List.map_congr_left fun h _ => keepEntry_keepEntry h

theorem visitProcess_update {tables : ProcessTables π τ} {process : π} (other : π) :
    visitProcess w env target (Function.update tables process
        (keepTable w target protection (tables process))) other =
      visitProcess w env target tables other := by
  by_cases h : other = process
  · subst h
    exact visitProcess_congr ⟨_, Function.update_self ..⟩
  · refine visitProcess_congr ⟨fun handles => handles, ?_⟩
    rw [Function.update_of_ne h]
    cases tables other <;> rfl

theorem walkedProcesses_update {tables : ProcessTables π τ} {process : π} (processes : List π) :
    walkedProcesses w env target (Function.update tables process
        (keepTable w target protection (tables process))) processes =
      walkedProcesses w env target tables processes := by
  simp only [walkedProcesses, visitProcess_update]

theorem enumerateProcessContexts_tables (hdyn : dyn.obDecodeShift ≠ ulongMax)
    (processes : List π) (tables : ProcessTables π τ) (status : NtStatus) (p : π) :
    (enumerateProcessContexts w env dyn target protection processes tables status).1 p =
      if p ∈ walkedProcesses w env target tables processes then
        keepTable w target protection (tables p)
      else tables p := by
  induction processes generalizing tables status with
  | nil => rfl
  | cons process rest ih =>
      have hrest : ∀ v, visitProcess w env target tables process = v → v.stops = false →
          walkedProcesses w env target tables (process :: rest) =
            if v.walks then process :: walkedProcesses w env target tables rest
            else walkedProcesses w env target tables rest := by
        intro v hv hstops
        rw [walkedProcesses, List.takeWhile_cons, hv, hstops]
        simp only [Bool.not_false, if_true, List.filter_cons, hv]
        rfl
      rw [enumerateProcessContexts]
      split
      · next status' hvisit =>
          -- Nothing behind the process that stops the enumeration is walked through.
          have hnone : walkedProcesses w env target tables (process :: rest) = [] := by
            rw [walkedProcesses, List.takeWhile_cons, hvisit]
            rfl
          simp [hnone]
      · next handles hvisit htable =>
          rw [walkHandles_decodable hdyn]
          have hupdate : (Except.ok (handles.map (keepEntry w target protection)) :
              Except NtStatus (HandleList π τ)) = keepTable w target protection (tables process) := by
            rw [htable]
            rfl
          dsimp only
          rw [hupdate, ih, walkedProcesses_update, hrest _ hvisit rfl]
          simp only [ProtectionVisit.walks, if_true, List.mem_cons]
          by_cases hp : p = process
          · subst hp
            simp only [Function.update_self, keepTable_keepTable, true_or, if_true, ite_self]
          · simp only [Function.update_of_ne hp, hp, false_or]
      · next hstop hwalk =>
          have hstops : (visitProcess w env target tables process).stops = false := by
            cases hvisit : visitProcess w env target tables process with
            | stop status' => exact absurd hvisit (hstop status')
            | pass => rfl
            | suppress => rfl
            | walk => rfl
          rw [ih, hrest _ rfl hstops]
          cases hwalks : (visitProcess w env target tables process).walks with
          | false => simp
          | true =>
              simp only [if_true, List.mem_cons]
              by_cases hp : p = process
              · subst hp
                cases htable : tables p with
                | ok handles =>
                    have hvisit : visitProcess w env target tables p = .walk := by
                      cases hv : visitProcess w env target tables p with
                      | walk => rfl
                      | pass => simp [hv, ProtectionVisit.walks] at hwalks
                      | suppress => simp [hv, ProtectionVisit.walks] at hwalks
                      | stop status' => simp [hv, ProtectionVisit.walks] at hwalks
                    exact (hwalk handles hvisit htable).elim
                | error status' => simp [keepTable, Except.map]
              · simp only [hp, false_or]

theorem enumerateProcessContexts_undecodable (hdyn : dyn.obDecodeShift = ulongMax)
    (processes : List π) (tables : ProcessTables π τ) (status : NtStatus) :
    (enumerateProcessContexts w env dyn target protection processes tables status).1 = tables := by
  induction processes generalizing tables status with
  | nil => rfl
  | cons process rest ih =>
      rw [enumerateProcessContexts]
      split
      · rfl
      · next handles hvisit htable =>
          dsimp only
          rw [walkHandles_undecodable hdyn, ← htable, Function.update_eq_self, ih]
      · exact ih tables status

/-- With handles that can be decoded, the enumeration fails exactly if a process stops
it. -/
theorem enumerateProcessContexts_fails (hdyn : dyn.obDecodeShift ≠ ulongMax)
    (processes : List π) (tables : ProcessTables π τ) {status : NtStatus}
    (hstatus : ntSuccess status = true) :
    ¬ ntSuccess (enumerateProcessContexts w env dyn target protection processes tables
        status).2 ↔
      ∃ p ∈ processes, (visitProcess w env target tables p).stops = true := by
  induction processes generalizing tables with
  | nil => simp [enumerateProcessContexts, hstatus]
  | cons process rest ih =>
      rw [enumerateProcessContexts]
      split
      · next status' hvisit =>
          have hfail := kphpEnumProcessContextsForProtection_stop hvisit
          simp [hfail, hvisit, ProtectionVisit.stops]
      · next handles hvisit htable =>
          have hupdate : (Except.ok (handles.map (keepEntry w target protection)) :
              Except NtStatus (HandleList π τ)) = keepTable w target protection (tables process) := by
            rw [htable]
            rfl
          rw [walkHandles_decodable hdyn]
          dsimp only
          rw [hupdate, Option.getD_none, ih]
          simp only [visitProcess_update, List.mem_cons, exists_eq_or_imp, hvisit,
            ProtectionVisit.stops, Bool.false_eq_true, false_or]
      · next hstop hwalk =>
          have hstops : (visitProcess w env target tables process).stops = false := by
            cases hvisit : visitProcess w env target tables process with
            | stop status' => exact absurd hvisit (hstop status')
            | pass => rfl
            | suppress => rfl
            | walk => rfl
          rw [ih]
          simp [hstops]

/-- A table keeps its accesses exactly if it cannot be referenced or none of its handles
loses access. -/
theorem keepTable_iff (table : Except NtStatus (HandleList π τ)) :
    (keepTable w target protection table).map HandleList.grantedAccesses =
        table.map HandleList.grantedAccesses ↔
      ∀ handles, table = .ok handles → ∀ h ∈ handles, ¬ LosesAccess w target protection h := by
  cases table with
  | error status => simp [keepTable, Except.map]
  | ok handles =>
      simp only [keepTable, Except.map, Except.ok.injEq, forall_eq']
      exact keepEntries_iff handles

/-! ## The call -/

omit [DecidableEq π] in
theorem startAtomic_enumerated {before started : ProtectionRecord} {tables : ProcessTables π τ}
    {r : ProcessTables π τ × NtStatus} (hbefore : ProtectionRecord.stopped = before) :
    StartAtomic before tables
        (if ¬ ntSuccess r.2 then ⟨r.2, .stopped, r.1⟩ else ⟨r.2, started, r.1⟩) ↔
      (¬ ntSuccess r.2 → ∀ process, (r.1 process).map HandleList.grantedAccesses =
        (tables process).map HandleList.grantedAccesses) := by
  by_cases hfail : ntSuccess r.2 = true
  · simp [StartAtomic, hfail]
  · simp [StartAtomic, hfail, hbefore]

/-- A start is all or nothing exactly when no handle loses access before the enumeration
stops. -/
theorem kphStartProtectingProcess_atomic_iff (w : ProtectionWorld π τ) (env : StartEnv π)
    (target : π) (args : StartArgs) (protection : ProtectionRecord)
    (tables : ProcessTables π τ) :
    StartAtomic protection tables
        (kphStartProtectingProcess w env target args protection tables) ↔
      StartSound w env target args protection tables := by
  rw [kphStartProtectingProcess, StartSound]
  cases hdynamic : env.referenceDyn with
  | none => simp [StartAtomic]
  | some dyn =>
      simp only [Option.some.injEq, forall_eq']
      by_cases hprivilege : env.debugPrivilege = true
      swap
      · simp [hprivilege, StartAtomic]
      cases hprotected : protection.1.isProtected with
      | true => simp [hprivilege, StartAtomic]
      | false =>
          have hbefore : ProtectionRecord.stopped = protection :=
            Subtype.ext (protection.2 hprotected).symm
          simp only [hprivilege, Bool.true_eq_false, if_false, Bool.false_eq_true, true_imp_iff]
          rw [startAtomic_enumerated hbefore]
          by_cases hdyn : dyn.obDecodeShift = ulongMax
          · -- Nothing is changed, whatever comes of it.
            simp [hdyn, enumerateProcessContexts_undecodable hdyn]
          · rw [enumerateProcessContexts_fails hdyn _ _ (by decide)]
            simp only [hdyn, not_false_eq_true, true_imp_iff, ne_eq,
              enumerateProcessContexts_tables hdyn]
            refine imp_congr Iff.rfl (forall_congr' fun p => ?_)
            by_cases hp : p ∈ walkedProcesses w env target tables w.processes
            · simp only [hp, if_true, true_imp_iff]
              exact keepTable_iff (tables p)
            · simp [hp]

end

/-! ## A check that fails late -/

section

local instance lsassProcesses : NeZero 3 := ⟨by decide⟩

/-- Three processes with a thread each; the check whether the last is LSA fails. -/
def lsassWorld : ProtectionWorld (Fin 3) (Fin 3) where
  processes := [0, 1, 2]
  tracked := by decide
  processId := fun p => 4 * p.val + 4
  threadProcess := id
  isCreatingProcess := fun _ => false
  isCreatingProcessId := fun _ => 0
  dominationCheck := fun _ _ => statusSuccess
  processIsLsass := fun p => if p = 2 then (statusUnsuccessful, false) else (statusSuccess, false)
  processState := fun _ => 0

def lsassEnv : StartEnv (Fin 3) where
  referenceDyn := some ⟨20, 0, 0⟩
  debugPrivilege := true
  processDyn := fun _ => some ⟨20, 0, 0⟩

def lsassTables : ProcessTables (Fin 3) (Fin 3) := fun p =>
  if p = 1 then .ok [(4, ⟨.process 0, 0x1fffff, false, .handleCreate, 1, false⟩)] else .ok []

end

theorem kphStartProtectingProcess_strips :
    ¬ StartAtomic .stopped lsassTables
      (kphStartProtectingProcess lsassWorld lsassEnv 0 ⟨0x1000, 0x800⟩ .stopped lsassTables) := by
  intro h
  have hfail : ¬ ntSuccess (kphStartProtectingProcess lsassWorld lsassEnv 0 ⟨0x1000, 0x800⟩
      .stopped lsassTables).status := by
    decide +kernel
  have hafter : ((kphStartProtectingProcess lsassWorld lsassEnv 0 ⟨0x1000, 0x800⟩ .stopped
      lsassTables).tables 1).map HandleList.grantedAccesses = .ok [(4, 0x1000)] := by
    rfl
  have hbefore : (lsassTables 1).map HandleList.grantedAccesses = .ok [(4, 0x1fffff)] := rfl
  have hsame := (h hfail).2 1
  rw [hafter, hbefore] at hsame
  simp at hsame

end SystemInformer.Driver
