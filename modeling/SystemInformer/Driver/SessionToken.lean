import SystemInformer.Driver.CommsNotify

/-!
# Session tokens (`session_token.c`)

A thread requests a token, which waits in the thread's `RequestSessionToken`, and later
assigns it to a process or a thread by presenting a signature of it. The request slot
belongs to the calling thread alone and is emptied with one exchange, so a call is one
step of the model.

`τ` are the thread contexts and `π` the process contexts. A token object is told from
others by the number of its creation; its access token never changes. The state of a
process is whatever it is at the time of a call, and `KphVerifyBufferEx` is a parameter.
-/

namespace SystemInformer.Driver

open Bytes

/-! ## Tokens -/

/-- `KPH_SESSION_ACCESS_TOKEN`. -/
structure SessionAccessToken where
  expiry : Int64
  privileges : UInt32
  uses : Int32
  identifier : List UInt8
  material : List UInt8

def SessionAccessToken.bytes (token : SessionAccessToken) : List UInt8 :=
  leEncode 8 token.expiry.toUInt64.toNat ++ leEncode 4 token.privileges.toNat ++
    leEncode 4 token.uses.toUInt32.toNat ++ token.identifier ++ token.material

structure SessionToken where
  number : Nat
  accessToken : SessionAccessToken

def kphTokenValidPrivileges : UInt32 := 0x00000001

/-- The fields of a thread context that the token routines use. -/
structure SessionThread (π : Type) where
  processContext : Option π
  sessionToken : Option SessionToken
  requestSessionToken : Option SessionToken

structure SessionState (τ π : Type) where
  thread : τ → SessionThread π
  sessionToken : π → Option SessionToken
  created : Nat

section

variable {τ π : Type} [DecidableEq τ] [DecidableEq π]

def SessionState.setThread (s : SessionState τ π) (t : τ) (thread : SessionThread π) :
    SessionState τ π :=
  { s with thread := Function.update s.thread t thread }

/-- `KphAtomicAssignObjectReference` to, or a move of `NULL` into, the request slot. -/
def SessionState.setRequest (s : SessionState τ π) (t : τ) (token : Option SessionToken) :
    SessionState τ π :=
  s.setThread t { s.thread t with requestSessionToken := token }

def SessionState.assignThread (s : SessionState τ π) (t : τ) (token : SessionToken) :
    SessionState τ π :=
  s.setThread t { s.thread t with sessionToken := some token }

def SessionState.assignProcess (s : SessionState τ π) (p : π) (token : SessionToken) :
    SessionState τ π :=
  { s with sessionToken := Function.update s.sessionToken p (some token) }

/-! ## Requests -/

structure RequestArgs where
  expiry : Int64
  privileges : UInt32
  uses : Int32

structure RequestEnv where
  allocate : Bool
  uuidCreate : NtStatus
  identifier : List UInt8
  genRandom : NtStatus
  material : List UInt8
  systemTime : Int64

def kphpInitializeSessionToken (args : RequestArgs) (env : RequestEnv) :
    Except NtStatus SessionAccessToken :=
  if env.uuidCreate ≠ statusSuccess then
    .error (if ntSuccess env.uuidCreate then statusUnsuccessful else env.uuidCreate)
  else if ntSuccess env.genRandom = false then
    .error env.genRandom
  else
    let expiry := if args.expiry < 0 then env.systemTime + -args.expiry else args.expiry
    .ok ⟨expiry, args.privileges, args.uses, env.identifier, env.material⟩

/-- What a call leaves: its status, the token a request created, the token an assignment
assigned, and the state. -/
structure SessionOutcome (τ π : Type) where
  status : NtStatus
  requested : Option SessionToken
  assigned : Option SessionToken
  state : SessionState τ π

/-- `caller` is what `KphGetCurrentThreadContext` answers. -/
def kphRequestSessionAccessToken (s : SessionState τ π) (caller : Option τ) (args : RequestArgs)
    (env : RequestEnv) : SessionOutcome τ π :=
  if args.privileges = 0 ∨ args.privileges &&& ~~~kphTokenValidPrivileges ≠ 0 then
    ⟨statusInvalidParameter, none, none, s⟩
  else match caller with
    | none => ⟨statusInsufficientResources, none, none, s⟩
    | some thread =>
        if env.allocate = false then
          ⟨statusInsufficientResources, none, none, s⟩
        else match kphpInitializeSessionToken args env with
          | .error status => ⟨status, none, none, s⟩
          | .ok accessToken =>
              let token : SessionToken := ⟨s.created, accessToken⟩
              ⟨statusSuccess, some token, none,
                { s.setRequest thread (some token) with created := s.created + 1 }⟩

/-! ## Assignments -/

/-- `signature` are the bytes captured, unless `signatureFault` says that they could not
be; `state` is `KphGetProcessState` at the time of the call. -/
structure AssignEnv (π : Type) where
  publicKey : Bool
  accessMode : ProcessorMode
  allocate : Bool
  signatureFault : Option CopyFault
  signature : List UInt8
  state : π → ProcessState

/-- `KphVerifyBufferEx` with the session token's key, of the token's bytes and a
signature. -/
abbrev VerifyBuffer := List UInt8 → List UInt8 → NtStatus

/-- The capture of the signature: the status it ends with, if it fails. -/
def captureSignature (env : AssignEnv π) : Option NtStatus :=
  match env.accessMode with
  | .kernelMode => none
  | .userMode =>
      if env.allocate = false then some statusInsufficientResources
      else env.signatureFault.map CopyFault.status

def kphpVerifySessionToken (verify : VerifyBuffer) (actor target : π) (token : SessionToken)
    (env : AssignEnv π) : NtStatus :=
  if env.publicKey = false then
    statusNoInterface
  else match captureSignature env with
    | some status => status
    | none =>
        let status := verify token.accessToken.bytes env.signature
        if ntSuccess status = false then
          status
        else
          let actorState := env.state actor
          let _targetState := env.state target
          if actorState &&& kphProcessStateMaximum ≠ kphProcessStateMaximum ∨
              actorState &&& kphProcessStateMaximum ≠ kphProcessStateMaximum then
            statusAccessDenied
          else
            statusSuccess

/-- What the two assignments share: `targetProcess` is the process whose state is asked
for, and `assign` stores the token. -/
def kphpAssignSessionToken (verify : VerifyBuffer) (s : SessionState τ π) (caller : Option τ)
    (targetProcess : Option π) (assign : SessionState τ π → SessionToken → SessionState τ π)
    (env : AssignEnv π) : SessionOutcome τ π :=
  match caller with
  | none => ⟨statusInsufficientResources, none, none, s⟩
  | some actor =>
      let moved := s.setRequest actor none
      match (s.thread actor).requestSessionToken with
      | none => ⟨statusInvalidStateTransition, none, none, moved⟩
      | some token =>
          match (s.thread actor).processContext, targetProcess with
          | some process, some target =>
              let status := kphpVerifySessionToken verify process target token env
              if ntSuccess status = false then ⟨status, none, none, moved⟩
              else ⟨statusSuccess, none, some token, assign moved token⟩
          | _, _ => ⟨statusInsufficientResources, none, none, moved⟩

def kphpAssignProcessSessionToken (verify : VerifyBuffer) (s : SessionState τ π)
    (caller : Option τ) (target : π) (env : AssignEnv π) : SessionOutcome τ π :=
  kphpAssignSessionToken verify s caller (some target) (·.assignProcess target) env

def kphpAssignThreadSessionToken (verify : VerifyBuffer) (s : SessionState τ π)
    (caller : Option τ) (target : τ) (env : AssignEnv π) : SessionOutcome τ π :=
  kphpAssignSessionToken verify s caller (s.thread target).processContext
    (·.assignThread target) env

/-! ## Runs -/

inductive SessionTarget (τ π : Type) where
  | process (p : π)
  | thread (t : τ)

inductive SessionCall (τ π : Type) where
  | request (caller : Option τ) (args : RequestArgs) (env : RequestEnv)
  | assign (caller : Option τ) (target : SessionTarget τ π) (env : AssignEnv π)

def SessionCall.caller : SessionCall τ π → Option τ
  | .request caller _ _ => caller
  | .assign caller _ _ => caller

def SessionCall.run (verify : VerifyBuffer) (s : SessionState τ π) :
    SessionCall τ π → SessionOutcome τ π
  | .request caller args env => kphRequestSessionAccessToken s caller args env
  | .assign caller (.process p) env => kphpAssignProcessSessionToken verify s caller p env
  | .assign caller (.thread t) env => kphpAssignThreadSessionToken verify s caller t env

/-- The state with what a run has done so far: the token each thread requested last, and
the numbers of the tokens assigned. -/
structure SessionHistory (τ π : Type) where
  state : SessionState τ π
  latest : τ → Option SessionToken
  assigned : List Nat

def SessionHistory.step (verify : VerifyBuffer) (h : SessionHistory τ π) (call : SessionCall τ π) :
    SessionHistory τ π :=
  let r := call.run verify h.state
  { state := r.state
    latest := match call.caller, r.requested with
      | some thread, some token => Function.update h.latest thread (some token)
      | _, _ => h.latest
    assigned := h.assigned ++ (r.assigned.map SessionToken.number).toList }

/-- Threads of given processes, before anything was requested. -/
def SessionHistory.start (processContext : τ → Option π) : SessionHistory τ π where
  state := ⟨fun t => ⟨processContext t, none, none⟩, fun _ => none, 0⟩
  latest := fun _ => none
  assigned := []

def SessionHistory.run (verify : VerifyBuffer) (h : SessionHistory τ π)
    (calls : List (SessionCall τ π)) : SessionHistory τ π :=
  calls.foldl (SessionHistory.step verify) h

end

end SystemInformer.Driver
