import SystemInformer.Driver.SessionToken

/-!
# Session token privilege checks (`session_token.c`)

`KphSessionTokenPrivilegeCheck` asks the token of a thread and, if that one denies, the
token of the thread's process. A token that may be used a number of times counts its uses
with a compare-exchange, in a loop that starts from the count read before the other tests.

`ι` are the threads that make checks, `τ` and `π` the thread and process contexts, `κ` the
token objects. The two slots are atomic references: a step may put any token into one or
empty it at any time, and one token may be in both. The system time is whatever a query
answers. A thread's steps are its time query, its reads of the use count, its
compare-exchanges and its references of the slots; the tests between them are on values of
its own and belong to the step before.
-/

namespace SystemInformer.Driver

/-- Where `KphpSessionTokenPrivilegeCheck` is. -/
inductive TokenCheckPc where
  | keQuerySystemTime
  | readAcquire (systemTime : Int64)
  | interlockedCompareExchange (useCount : Int32)
  | readAgain

/-- Where `KphSessionTokenPrivilegeCheck` is; `fromThread` tells the check of the thread's
token from that of the process's. -/
inductive PrivilegePc (κ : Type) where
  | referenceThreadToken
  | check (token : κ) (fromThread : Bool) (pc : TokenCheckPc)
  | referenceProcessToken

/-- A call, with what it did: the tokens whose check it began and the times it queried for
them, the tokens whose count it incremented, and the token that granted it. -/
structure PrivilegeCall (τ κ : Type) where
  thread : τ
  privileges : UInt32
  queried : List (κ × Int64)
  incremented : List κ
  granted : Option κ

structure PrivilegeState (ι τ π κ : Type) where
  /-- The call each thread is in, if any, and where it is. -/
  running : ι → Option (PrivilegePc κ × PrivilegeCall τ κ)
  useCount : κ → Int32
  threadToken : τ → Option κ
  processToken : π → Option κ
  /-- The calls that were decided, in the order of their decisions. -/
  decided : List (PrivilegeCall τ κ)

section

variable {ι τ π κ : Type} [DecidableEq ι] [DecidableEq τ] [DecidableEq π] [DecidableEq κ]

namespace PrivilegeState

def goto (s : PrivilegeState ι τ π κ) (i : ι) (call : PrivilegeCall τ κ)
    (pc : PrivilegePc κ) : PrivilegeState ι τ π κ :=
  { s with running := Function.update s.running i (some (pc, call)) }

def finish (s : PrivilegeState ι τ π κ) (i : ι) (call : PrivilegeCall τ κ)
    (granted : Option κ) : PrivilegeState ι τ π κ :=
  { s with
    running := Function.update s.running i none
    decided := s.decided ++ [{ call with granted := granted }] }

def setUseCount (s : PrivilegeState ι τ π κ) (token : κ) (useCount : Int32) :
    PrivilegeState ι τ π κ :=
  { s with useCount := Function.update s.useCount token useCount }

/-- The check of the thread's or of the process's token returned `FALSE`. -/
def deny (s : PrivilegeState ι τ π κ) (processContext : τ → Option π) (i : ι)
    (call : PrivilegeCall τ κ) (fromThread : Bool) : PrivilegeState ι τ π κ :=
  match fromThread, processContext call.thread with
  | true, some _ => s.goto i call .referenceProcessToken
  | _, _ => s.finish i call none

/-- The head of the loop, with the count just read. -/
def tryUse (s : PrivilegeState ι τ π κ) (processContext : τ → Option π) (i : ι)
    (call : PrivilegeCall τ κ) (token : κ) (fromThread : Bool) (uses : Int32) :
    PrivilegeState ι τ π κ :=
  let useCount := s.useCount token
  if useCount ≥ uses then s.deny processContext i call fromThread
  else s.goto i call (.check token fromThread (.interlockedCompareExchange useCount))

/-- The next step of a thread that is in `call`; a time query answers `now`. -/
def advance (s : PrivilegeState ι τ π κ) (accessToken : κ → SessionAccessToken)
    (processContext : τ → Option π) (i : ι) (call : PrivilegeCall τ κ) (now : Int64) :
    PrivilegePc κ → PrivilegeState ι τ π κ
  | .referenceThreadToken =>
      match s.threadToken call.thread with
      | some token => s.goto i call (.check token true .keQuerySystemTime)
      | none => s.deny processContext i call true
  | .referenceProcessToken =>
      match (processContext call.thread).bind s.processToken with
      | some token => s.goto i call (.check token false .keQuerySystemTime)
      | none => s.deny processContext i call false
  | .check token fromThread .keQuerySystemTime =>
      s.goto i { call with queried := call.queried ++ [(token, now)] }
        (.check token fromThread (.readAcquire now))
  | .check token fromThread (.readAcquire systemTime) =>
      let access := accessToken token
      if access.expiry ≤ systemTime then s.deny processContext i call fromThread
      else if access.privileges &&& call.privileges ≠ call.privileges then
        s.deny processContext i call fromThread
      else if access.uses < 0 then s.finish i call (some token)
      else s.tryUse processContext i call token fromThread access.uses
  | .check token fromThread (.interlockedCompareExchange useCount) =>
      if s.useCount token = useCount then
        (s.setUseCount token (useCount + 1)).finish i
          { call with incremented := call.incremented ++ [token] } (some token)
      else s.goto i call (.check token fromThread .readAgain)
  | .check token fromThread .readAgain =>
      s.tryUse processContext i call token fromThread (accessToken token).uses

end PrivilegeState

/-- A step of the system: a thread begins a check, a thread that is in one goes on, or a
slot is assigned. -/
inductive PrivilegeStep (accessToken : κ → SessionAccessToken) (processContext : τ → Option π) :
    PrivilegeState ι τ π κ → PrivilegeState ι τ π κ → Prop where
  | kphSessionTokenPrivilegeCheck {s : PrivilegeState ι τ π κ} (i : ι) (thread : τ)
      (privileges : UInt32) (hidle : s.running i = none) :
      PrivilegeStep accessToken processContext s
        (s.goto i ⟨thread, privileges, [], [], none⟩ .referenceThreadToken)
  | advance {s : PrivilegeState ι τ π κ} (i : ι) (call : PrivilegeCall τ κ)
      (pc : PrivilegePc κ) (now : Int64) (hrunning : s.running i = some (pc, call)) :
      PrivilegeStep accessToken processContext s
        (s.advance accessToken processContext i call now pc)
  | assignThread {s : PrivilegeState ι τ π κ} (t : τ) (token : Option κ) :
      PrivilegeStep accessToken processContext s
        { s with threadToken := Function.update s.threadToken t token }
  | assignProcess {s : PrivilegeState ι τ π κ} (p : π) (token : Option κ) :
      PrivilegeStep accessToken processContext s
        { s with processToken := Function.update s.processToken p token }

/-- No check was made and no token is assigned; `KphpInitializeSessionToken` leaves every
token unused. -/
def PrivilegeState.start : PrivilegeState ι τ π κ where
  running := fun _ => none
  useCount := fun _ => 0
  threadToken := fun _ => none
  processToken := fun _ => none
  decided := []

end

end SystemInformer.Driver
