import SystemInformer.Driver.SessionToken

/-!
# What an assigned session token says about the two processes

The slot of a thread holds the token it requested last, no token is in two slots, and a
token leaves its slot when it is assigned: this is the invariant of a run, and with it a
token is assigned at most once and by the thread that asked for it.

The verifier compares the state of the actor with the maximum twice and the state of the
target not at all. A successful assignment therefore says nothing about the target, and
the property that both were fully trusted holds of a run exactly when every target that
an accepted signature of a trusted actor is used on happens to be trusted.
-/

set_option linter.unusedSectionVars false

namespace SystemInformer.Driver

open Bytes

section

variable {τ π : Type} [DecidableEq τ]

/-! ## The slots -/

theorem thread_setThread_self (s : SessionState τ π) (t : τ) (thread : SessionThread π) :
    (s.setThread t thread).thread t = thread := Function.update_self ..

variable {s : SessionState τ π}

theorem thread_setThread_ne {t u : τ} {thread : SessionThread π}
    (h : u ≠ t) : (s.setThread t thread).thread u = s.thread u := Function.update_of_ne h ..

def SessionState.request (s : SessionState τ π) (t : τ) : Option SessionToken :=
  (s.thread t).requestSessionToken

theorem request_setRequest (s : SessionState τ π) (t u : τ) (token : Option SessionToken) :
    (s.setRequest t token).request u = if u = t then token else s.request u := by
  unfold SessionState.request SessionState.setRequest
  split
  · next h => rw [h, thread_setThread_self]
  · next h => rw [thread_setThread_ne h]

theorem request_assignThread (s : SessionState τ π) (t u : τ) (token : SessionToken) :
    (s.assignThread t token).request u = s.request u := by
  unfold SessionState.request SessionState.assignThread
  by_cases h : u = t
  · rw [h, thread_setThread_self]
  · rw [thread_setThread_ne h]

/-- The session token of a target, and the process whose state vouches for it. -/
def SessionState.tokenOf (s : SessionState τ π) : SessionTarget τ π → Option SessionToken
  | .process p => s.sessionToken p
  | .thread t => (s.thread t).sessionToken

def SessionState.processOf (s : SessionState τ π) : SessionTarget τ π → Option π
  | .process p => some p
  | .thread t => (s.thread t).processContext

variable [DecidableEq π]

def SessionState.assignTo (s : SessionState τ π) (token : SessionToken) :
    SessionTarget τ π → SessionState τ π
  | .process p => s.assignProcess p token
  | .thread t => s.assignThread t token

theorem tokenOf_setRequest (s : SessionState τ π) (t : τ) (token : Option SessionToken)
    (target : SessionTarget τ π) : (s.setRequest t token).tokenOf target = s.tokenOf target := by
  cases target with
  | process p => rfl
  | thread u =>
      show ((s.setThread t _).thread u).sessionToken = (s.thread u).sessionToken
      by_cases h : u = t
      · rw [h, thread_setThread_self]
      · rw [thread_setThread_ne h]

theorem tokenOf_assignTo (s : SessionState τ π) (token : SessionToken)
    (target : SessionTarget τ π) : (s.assignTo token target).tokenOf target = some token := by
  cases target with
  | process p => exact Function.update_self ..
  | thread t => exact congrArg SessionThread.sessionToken (thread_setThread_self ..)

theorem request_assignTo (s : SessionState τ π) (token : SessionToken)
    (target : SessionTarget τ π) (u : τ) : (s.assignTo token target).request u = s.request u := by
  cases target with
  | process p => rfl
  | thread t => exact request_assignThread ..

theorem created_assignTo (s : SessionState τ π) (token : SessionToken)
    (target : SessionTarget τ π) : (s.assignTo token target).created = s.created := by
  cases target with
  | process p => rfl
  | thread t => rfl

/-! ## The verifier -/

/-- The signature of the token could be captured, and the key accepts it. -/
def SignatureAccepted (verify : VerifyBuffer) (env : AssignEnv π) (token : SessionToken) : Prop :=
  env.publicKey = true ∧ captureSignature env = none ∧
    ntSuccess (verify token.accessToken.bytes env.signature) = true

theorem captureSignature_failed {env : AssignEnv π} {status : NtStatus}
    (h : captureSignature env = some status) : ntSuccess status = false := by
  unfold captureSignature at h
  split at h
  · cases h
  · split at h
    · rw [← Option.some.inj h]
      decide
    · obtain ⟨fault, -, rfl⟩ := Option.map_eq_some_iff.mp h
      exact fault.failed

theorem kphpVerifySessionToken_success_iff {verify : VerifyBuffer} {actor target : π}
    {token : SessionToken} {env : AssignEnv π} :
    ntSuccess (kphpVerifySessionToken verify actor target token env) = true ↔
      SignatureAccepted verify env token ∧
        hasState (env.state actor) kphProcessStateMaximum = true := by
  unfold kphpVerifySessionToken SignatureAccepted
  split
  · next hkey => simp [hkey, ntSuccess, statusNoInterface]
  · next hkey =>
      split
      · next status hcapture =>
          have hfail := captureSignature_failed hcapture
          simp [hcapture, hfail]
      · next hcapture =>
          dsimp only
          split
          · next hverify => simp [hverify]
          · next hverify =>
              have hkey := Bool.eq_true_of_not_eq_false hkey
              have hverify := Bool.eq_true_of_not_eq_false hverify
              split
              · next hstate =>
                  have hno : hasState (env.state actor) kphProcessStateMaximum = false := by
                    simpa [hasState] using hstate
                  simp [hno, ntSuccess, statusAccessDenied]
              · next hstate =>
                  have hyes : hasState (env.state actor) kphProcessStateMaximum = true := by
                    simpa [hasState] using hstate
                  exact iff_of_true (by decide) ⟨⟨hkey, hcapture, hverify⟩, hyes⟩

/-! ## The calls -/

theorem assign_cases (verify : VerifyBuffer) (s : SessionState τ π) (caller : Option τ)
    (target : SessionTarget τ π) (env : AssignEnv π) :
    (∃ status, ntSuccess status = false ∧
      (SessionCall.assign caller target env).run verify s =
        ⟨status, none, none, caller.elim s fun actor => s.setRequest actor none⟩) ∨
    ∃ actor token process targetProcess, caller = some actor ∧ s.request actor = some token ∧
      (s.thread actor).processContext = some process ∧ s.processOf target = some targetProcess ∧
      SignatureAccepted verify env token ∧
      hasState (env.state process) kphProcessStateMaximum = true ∧
      (SessionCall.assign caller target env).run verify s =
        ⟨statusSuccess, none, some token, (s.setRequest actor none).assignTo token target⟩ := by
  have hrun : (SessionCall.assign caller target env).run verify s =
      kphpAssignSessionToken verify s caller (s.processOf target)
        (fun s token => s.assignTo token target) env := by
    cases target with
    | process p => rfl
    | thread t => rfl
  rw [hrun]
  unfold kphpAssignSessionToken
  cases caller with
  | none => exact .inl ⟨_, by decide, rfl⟩
  | some actor =>
      dsimp only
      split
      · exact .inl ⟨_, by decide, rfl⟩
      · next token htoken =>
          split
          · next process targetProcess hprocess htarget =>
              split
              · next hfail => exact .inl ⟨_, hfail, rfl⟩
              · next hsucc =>
                  obtain ⟨hsig, hstate⟩ := kphpVerifySessionToken_success_iff.mp
                    (Bool.eq_true_of_not_eq_false hsucc)
                  exact .inr ⟨actor, token, process, targetProcess, rfl, htoken, hprocess, htarget,
                    hsig, hstate, rfl⟩
          · exact .inl ⟨_, by decide, rfl⟩

theorem assign_succeeds {verify : VerifyBuffer} {actor : τ}
    {target : SessionTarget τ π} {env : AssignEnv π} {token : SessionToken}
    {process targetProcess : π} (htoken : s.request actor = some token)
    (hprocess : (s.thread actor).processContext = some process)
    (htarget : s.processOf target = some targetProcess)
    (hsig : SignatureAccepted verify env token)
    (hstate : hasState (env.state process) kphProcessStateMaximum = true) :
    ntSuccess ((SessionCall.assign (some actor) target env).run verify s).status = true := by
  have hverify : ntSuccess (kphpVerifySessionToken verify process targetProcess token env) = true :=
    kphpVerifySessionToken_success_iff.mpr ⟨hsig, hstate⟩
  have hrun : (SessionCall.assign (some actor) target env).run verify s =
      kphpAssignSessionToken verify s (some actor) (s.processOf target)
        (fun s token => s.assignTo token target) env := by
    cases target with
    | process p => rfl
    | thread t => rfl
  have htoken : (s.thread actor).requestSessionToken = some token := htoken
  rw [hrun, htarget]
  unfold kphpAssignSessionToken
  simp only [htoken, hprocess, hverify]
  rfl

theorem request_cases (verify : VerifyBuffer) (s : SessionState τ π) (caller : Option τ)
    (args : RequestArgs) (env : RequestEnv) :
    (∃ status, (SessionCall.request caller args env).run verify s = ⟨status, none, none, s⟩) ∨
    ∃ thread accessToken, caller = some thread ∧
      (SessionCall.request caller args env).run verify s =
        ⟨statusSuccess, some ⟨s.created, accessToken⟩, none,
          { s.setRequest thread (some ⟨s.created, accessToken⟩) with created := s.created + 1 }⟩ := by
  show (∃ status, kphRequestSessionAccessToken s caller args env = _) ∨ ∃ thread accessToken,
    caller = some thread ∧ kphRequestSessionAccessToken s caller args env = _
  unfold kphRequestSessionAccessToken
  split
  · exact .inl ⟨_, rfl⟩
  · split
    · exact .inl ⟨_, rfl⟩
    · next thread =>
        split
        · exact .inl ⟨_, rfl⟩
        · split
          · exact .inl ⟨_, rfl⟩
          · next accessToken _ => exact .inr ⟨thread, accessToken, rfl, rfl⟩

/-! ## The invariant of a run -/

structure SessionHistory.Ok (h : SessionHistory τ π) : Prop where
  latest : ∀ t token, h.state.request t = some token → h.latest t = some token
  fresh : ∀ t token, h.state.request t = some token →
    token.number < h.state.created ∧ token.number ∉ h.assigned
  distinct : ∀ t u token token', h.state.request t = some token →
    h.state.request u = some token' → token.number = token'.number → t = u
  below : ∀ n ∈ h.assigned, n < h.state.created
  nodup : h.assigned.Nodup

theorem SessionHistory.start_ok (processContext : τ → Option π) :
    (SessionHistory.start processContext).Ok := by
  refine ⟨fun t token h => ?_, fun t token h => ?_, fun t u token token' h => ?_,
    fun n hn => absurd hn List.not_mem_nil, List.nodup_nil⟩
  · cases h
  · cases h
  · cases h

variable {h : SessionHistory τ π}

theorem SessionHistory.Ok.clear (hok : h.Ok)
    (hslot : ∀ t token, s.request t = some token → h.state.request t = some token)
    (hcreated : s.created = h.state.created) : ({ h with state := s } : SessionHistory τ π).Ok where
  latest t token ht := hok.latest t token (hslot t token ht)
  fresh t token ht := by
    show token.number < s.created ∧ _
    rw [hcreated]
    exact hok.fresh t token (hslot t token ht)
  distinct t u token token' ht hu := hok.distinct t u token token' (hslot _ _ ht) (hslot _ _ hu)
  below n hn := by
    show n < s.created
    rw [hcreated]
    exact hok.below n hn
  nodup := hok.nodup

theorem request_clearRequest {actor t : τ} {token : SessionToken}
    (h : (s.setRequest actor none).request t = some token) : s.request t = some token := by
  rw [request_setRequest] at h
  split at h
  · cases h
  · exact h

theorem SessionHistory.Ok.step_request (hok : h.Ok) (verify : VerifyBuffer)
    (caller : Option τ) (args : RequestArgs) (env : RequestEnv) :
    (h.step verify (.request caller args env)).Ok := by
  unfold SessionHistory.step
  rcases request_cases verify h.state caller args env with ⟨status, hrun⟩ | ⟨thread, access, rfl, hrun⟩
  · rw [hrun]
    cases caller with
    | none => simpa [SessionCall.caller] using hok
    | some thread => simpa [SessionCall.caller] using hok
  rw [hrun]
  simp only [SessionCall.caller, Option.map_none, Option.toList_none, List.append_nil]
  -- The new token is in one slot only and its number is larger than all others.
  have hslot : ∀ t token, (h.state.setRequest thread (some ⟨h.state.created, access⟩)).request t =
      some token → (t = thread ∧ token = ⟨h.state.created, access⟩) ∨
        (t ≠ thread ∧ h.state.request t = some token) := by
    intro t token ht
    rw [request_setRequest] at ht
    split at ht
    · next heq => exact .inl ⟨heq, (Option.some.inj ht).symm⟩
    · next hne => exact .inr ⟨hne, ht⟩
  refine ⟨fun t token ht => ?_, fun t token ht => ?_, fun t u token token' ht hu heq => ?_,
    fun n hn => Nat.lt_succ_of_lt (hok.below n hn), hok.nodup⟩
  · rcases hslot t token ht with ⟨rfl, rfl⟩ | ⟨hne, ht'⟩
    · exact Function.update_self ..
    · exact (Function.update_of_ne hne ..).trans (hok.latest t token ht')
  · rcases hslot t token ht with ⟨-, rfl⟩ | ⟨-, ht'⟩
    · exact ⟨Nat.lt_succ_self _, fun hin => Nat.lt_irrefl _ (hok.below _ hin)⟩
    · obtain ⟨hlt, hnot⟩ := hok.fresh t token ht'
      exact ⟨Nat.lt_succ_of_lt hlt, hnot⟩
  · rcases hslot t token ht with ⟨rfl, rfl⟩ | ⟨-, ht'⟩
    · rcases hslot u token' hu with ⟨rfl, -⟩ | ⟨-, hu'⟩
      · rfl
      · exact absurd heq.symm (Nat.ne_of_lt (hok.fresh u token' hu').1)
    · rcases hslot u token' hu with ⟨-, rfl⟩ | ⟨-, hu'⟩
      · exact absurd heq (Nat.ne_of_lt (hok.fresh t token ht').1)
      · exact hok.distinct t u token token' ht' hu' heq

theorem SessionHistory.Ok.step_assign (hok : h.Ok) (verify : VerifyBuffer)
    (caller : Option τ) (target : SessionTarget τ π) (env : AssignEnv π) :
    (h.step verify (.assign caller target env)).Ok := by
  unfold SessionHistory.step
  rcases assign_cases verify h.state caller target env with
    ⟨status, -, hrun⟩ | ⟨actor, token, process, targetProcess, rfl, htoken, -, -, -, -, hrun⟩
  · rw [hrun]
    cases caller with
    | none => simpa [SessionCall.caller] using hok
    | some actor =>
        simp only [SessionCall.caller, Option.map_none, Option.toList_none, List.append_nil]
        exact hok.clear (fun t token => request_clearRequest) rfl
  · rw [hrun]
    simp only [SessionCall.caller, Option.map_some, Option.toList_some]
    have hslot : ∀ t token', ((h.state.setRequest actor none).assignTo token target).request t =
        some token' → (h.state.setRequest actor none).request t = some token' :=
      fun t token' ht => (request_assignTo ..).symm.trans ht
    have hclear := hok.clear (fun t token' ht => request_clearRequest (hslot t token' ht))
      (created_assignTo ..)
    obtain ⟨hlt, hnot⟩ := hok.fresh actor token htoken
    refine ⟨hclear.latest, fun t token' ht => ⟨(hclear.fresh t token' ht).1, fun hin => ?_⟩,
      hclear.distinct, fun n hn => ?_, ?_⟩
    · rcases List.mem_append.mp hin with hin | hin
      · exact (hclear.fresh t token' ht).2 hin
      · -- The assigned token has left the only slot it was in.
        have ht' := hslot t token' ht
        have heq := hok.distinct t actor token' token (request_clearRequest ht') htoken
          (List.mem_singleton.mp hin)
        rw [request_setRequest, if_pos heq] at ht'
        cases ht'
    · rcases List.mem_append.mp hn with hn | hn
      · exact hclear.below n hn
      · rw [List.mem_singleton.mp hn]
        show token.number < ((h.state.setRequest actor none).assignTo token target).created
        rw [created_assignTo]
        exact hlt
    · exact List.nodup_append.mpr ⟨hok.nodup, List.nodup_singleton _, fun a ha b hb heq =>
        hnot (List.mem_singleton.mp hb ▸ heq ▸ ha)⟩

theorem SessionHistory.Ok.run (hok : h.Ok) (verify : VerifyBuffer)
    (calls : List (SessionCall τ π)) : (h.run verify calls).Ok := by
  induction calls generalizing h with
  | nil => exact hok
  | cons call calls ih =>
      cases call with
      | request caller args env => exact ih (hok.step_request verify caller args env)
      | assign caller target env => exact ih (hok.step_assign verify caller target env)

/-! ## What a run guarantees -/

/-- A call does what the design asks of it. A successful assignment took the token its
thread requested last, with an accepted signature, between fully trusted processes; a
failed one left the target alone and consumed the request. -/
def CallSound (verify : VerifyBuffer) (h : SessionHistory τ π) : SessionCall τ π → Prop
  | .request _ _ _ => True
  | .assign caller target env =>
      let r := (SessionCall.assign caller target env).run verify h.state
      (ntSuccess r.status = true → ∃ actor token process targetProcess, caller = some actor ∧
        h.latest actor = some token ∧ r.state.tokenOf target = some token ∧
        ntSuccess (verify token.accessToken.bytes env.signature) = true ∧
        (h.state.thread actor).processContext = some process ∧
        h.state.processOf target = some targetProcess ∧
        hasState (env.state process) kphProcessStateMaximum = true ∧
        hasState (env.state targetProcess) kphProcessStateMaximum = true) ∧
      (ntSuccess r.status = false → r.state.tokenOf target = h.state.tokenOf target ∧
        ∀ actor, caller = some actor → r.state.request actor = none)

/-- Every call of the run is sound, and no token was assigned twice. -/
def SessionRunSound (verify : VerifyBuffer) (h : SessionHistory τ π)
    (calls : List (SessionCall τ π)) : Prop :=
  (h.run verify calls).assigned.Nodup ∧ ∀ before call after, calls = before ++ call :: after →
    CallSound verify (h.run verify before) call

/-- If the call presents an accepted signature of a pending request of a fully trusted
actor, then its target is fully trusted too. -/
def TargetTrusted (verify : VerifyBuffer) (s : SessionState τ π) : SessionCall τ π → Prop
  | .request _ _ _ => True
  | .assign caller target env => ∀ actor token process targetProcess, caller = some actor →
      s.request actor = some token → (s.thread actor).processContext = some process →
      s.processOf target = some targetProcess → SignatureAccepted verify env token →
      hasState (env.state process) kphProcessStateMaximum = true →
      hasState (env.state targetProcess) kphProcessStateMaximum = true

theorem callSound_iff {verify : VerifyBuffer} (hok : h.Ok)
    (call : SessionCall τ π) : CallSound verify h call ↔ TargetTrusted verify h.state call := by
  cases call with
  | request caller args env => exact Iff.rfl
  | assign caller target env =>
      constructor
      · rintro ⟨hsound, -⟩ actor token process targetProcess rfl htoken hprocess htarget hsig hstate
        obtain ⟨-, -, -, targetProcess', -, -, -, -, -, htarget', -, htrusted⟩ :=
          hsound (assign_succeeds htoken hprocess htarget hsig hstate)
        rwa [Option.some.inj (htarget.symm.trans htarget')]
      · intro htrusted
        rcases assign_cases verify h.state caller target env with ⟨status, hfail, hrun⟩ |
          ⟨actor, token, process, targetProcess, rfl, htoken, hprocess, htarget, hsig, hstate, hrun⟩
        · refine ⟨fun hsucc => ?_, fun _ => ?_⟩
          · rw [hrun] at hsucc
            exact absurd (hfail.symm.trans hsucc) (by decide)
          · rw [hrun]
            cases caller with
            | none => exact ⟨rfl, nofun⟩
            | some actor =>
                refine ⟨tokenOf_setRequest .., fun actor' heq => ?_⟩
                rw [← Option.some.inj heq]
                exact (request_setRequest ..).trans (if_pos rfl)
        · refine ⟨fun _ => ⟨actor, token, process, targetProcess, rfl, hok.latest _ _ htoken, ?_,
            hsig.2.2, hprocess, htarget, hstate, htrusted actor token process targetProcess rfl
              htoken hprocess htarget hsig hstate⟩, fun hfail => ?_⟩
          · rw [hrun]
            exact tokenOf_assignTo ..
          · rw [hrun] at hfail
            exact absurd (show ntSuccess statusSuccess = false from hfail) (by decide)

end

/-- A run assigns each token at most once, and all its calls are sound exactly when the
targets are trusted wherever the verifier would have to find out. -/
theorem sessionRunSound_iff {τ π : Type} [DecidableEq τ] [DecidableEq π] (verify : VerifyBuffer)
    (processContext : τ → Option π) (calls : List (SessionCall τ π)) :
    SessionRunSound verify (.start processContext) calls ↔
      ∀ before call after, calls = before ++ call :: after →
        TargetTrusted verify
          ((SessionHistory.start processContext).run verify before).state call := by
  have hok := fun calls => (SessionHistory.start_ok processContext).run verify calls
  constructor
  · rintro ⟨-, hsound⟩ before call after heq
    exact (callSound_iff (hok before) call).mp (hsound before call after heq)
  · intro htrusted
    exact ⟨(hok calls).nodup, fun before call after heq =>
      (callSound_iff (hok before) call).mpr (htrusted before call after heq)⟩

/-- A trusted process 0 gives its token to process 1, which has no state at all. -/
def untrustedTargetCalls : List (SessionCall Unit Bool) :=
  [.request (some ()) ⟨0, 1, 1⟩ ⟨true, statusSuccess, [], statusSuccess, [], 0⟩,
   .assign (some ()) (.process true)
    ⟨true, .kernelMode, true, none, [1], fun p => if p then 0 else kphProcessStateMaximum⟩]

theorem sessionRun_untrusted_target :
    ¬ SessionRunSound (fun _ _ => statusSuccess) (.start fun _ : Unit => some false)
      untrustedTargetCalls := by
  rintro ⟨-, hsound⟩
  obtain ⟨-, -, -, targetProcess, -, -, -, -, -, htarget, -, htrusted⟩ :=
    (hsound [untrustedTargetCalls.head (by decide)] _ [] rfl).1 (by decide)
  rw [← Option.some.inj htarget] at htrusted
  exact absurd htrusted (by decide)

end SystemInformer.Driver
