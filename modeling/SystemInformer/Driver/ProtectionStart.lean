import SystemInformer.Driver.Protection

/-!
# A call of `KphStartProtectingProcess` (`protection.c`)

The call as a whole, with nothing else happening in between: the checks, the walk through
the handle tables of all processes in the order of the CID table, and the roll-back when
the walk fails. A handle table is the list of its entries in the order of
`ExEnumHandleTable`, and the callbacks are those of the model with steps.
-/

namespace SystemInformer.Driver

/-- What the three protection fields of a process context may hold: the masks are zero
while the process is not protected. -/
abbrev ProtectionRecord :=
  { protection : ProcessProtection //
    protection.isProtected = false → protection = .stopped }

def ProtectionRecord.stopped : ProtectionRecord := ⟨.stopped, fun _ => rfl⟩

def ProtectionRecord.started (processAllowedMask threadAllowedMask : AccessMask) :
    ProtectionRecord :=
  ⟨⟨true, processAllowedMask, threadAllowedMask⟩, by simp⟩

abbrev HandleList (π τ : Type) := List (Nat × HandleTableEntry π τ)

/-- The handle table of each process, or why it cannot be referenced. -/
abbrev ProcessTables (π τ : Type) := π → Except NtStatus (HandleList π τ)

def HandleList.table {π τ : Type} (handles : HandleList π τ) : HandleTable π τ := fun handle =>
  (handles.find? fun h => h.1 = handle).map Prod.snd

structure StartArgs where
  processAllowedMask : AccessMask
  threadAllowedMask : AccessMask

/-- `referenceDyn` is the dynamic data of the call, `processDyn` what
`KphEnumerateProcessHandlesEx` refers to when it comes to a process. -/
structure StartEnv (π : Type) where
  referenceDyn : Option ProtectionDyn
  debugPrivilege : Bool
  processDyn : π → Option ProtectionDyn

structure StartResult (π τ : Type) where
  status : NtStatus
  protection : ProtectionRecord
  tables : ProcessTables π τ

section

variable {π τ : Type} [DecidableEq π]

/-- The walk through one handle table: the entries as the callback leaves them, and the
status it stopped with, if it did. -/
def walkHandles (w : ProtectionWorld π τ) (dyn : ProtectionDyn) (target : π)
    (protection : ProcessProtection) : HandleList π τ → HandleList π τ × Option NtStatus
  | [] => ([], none)
  | (handle, entry) :: rest =>
      match kphpEnumProcessHandlesForProtection w dyn target protection handle entry with
      | .error status => ((handle, entry) :: rest, some status)
      | .ok entry =>
          let r := walkHandles w dyn target protection rest
          ((handle, entry) :: r.1, r.2)

def visitProcess (w : ProtectionWorld π τ) (env : StartEnv π) (target : π)
    (tables : ProcessTables π τ) (process : π) : ProtectionVisit :=
  kphpEnumProcessContextsForProtection w target process (env.processDyn process)
    ((tables process).map HandleList.table)

/-- `KphEnumerateProcessContexts`: the handle tables and `context.Status`. A handle that
cannot be decoded sets the status and ends the walk through its table only. -/
def enumerateProcessContexts (w : ProtectionWorld π τ) (env : StartEnv π) (dyn : ProtectionDyn)
    (target : π) (protection : ProcessProtection) :
    List π → ProcessTables π τ → NtStatus → ProcessTables π τ × NtStatus
  | [], tables, status => (tables, status)
  | process :: rest, tables, status =>
      match visitProcess w env target tables process, tables process with
      | .stop status, _ => (tables, status)
      | .walk, .ok handles =>
          let r := walkHandles w dyn target protection handles
          enumerateProcessContexts w env dyn target protection rest
            (Function.update tables process (.ok r.1)) (r.2.getD status)
      | _, _ => enumerateProcessContexts w env dyn target protection rest tables status

def kphStartProtectingProcess (w : ProtectionWorld π τ) (env : StartEnv π) (target : π)
    (args : StartArgs) (protection : ProtectionRecord) (tables : ProcessTables π τ) :
    StartResult π τ :=
  match env.referenceDyn with
  | none => ⟨statusNoInterface, protection, tables⟩
  | some dyn =>
      if env.debugPrivilege = false then ⟨statusPrivilegeNotHeld, protection, tables⟩
      else if protection.1.isProtected then ⟨statusAlreadyComplete, protection, tables⟩
      else
        let started := ProtectionRecord.started args.processAllowedMask args.threadAllowedMask
        let r := enumerateProcessContexts w env dyn target started.1 w.processes tables
          statusSuccess
        if ¬ ntSuccess r.2 then ⟨r.2, .stopped, r.1⟩ else ⟨r.2, started, r.1⟩

end

end SystemInformer.Driver
