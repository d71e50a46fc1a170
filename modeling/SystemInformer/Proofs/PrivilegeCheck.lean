import SystemInformer.Driver.PrivilegeCheck

/-!
# A session token is not over-used

A thread may hold a use count that others have left behind long ago. What it holds is
still below the number of uses the token has, since it was compared with that number when
it was read, and the number never changes; and the compare-exchange succeeds only if the
count is the same again. So the count that is stored is at most the number of uses, by
the test the thread made on the old one.

The rest is bookkeeping. The step that grants a call of a limited token is the step that
counts it, and no other step touches a count. So the count is at every moment the number
of calls granted, and a call that was denied had no such step.
-/

namespace SystemInformer.Driver

section

variable {ι τ π κ : Type} [DecidableEq κ]

/-! ## What is kept -/

def PrivilegeState.grants (s : PrivilegeState ι τ π κ) (token : κ) : Nat :=
  s.decided.countP fun call => call.granted = some token

/-- How often the calls that were decided incremented the count of a token. -/
def PrivilegeState.increments (s : PrivilegeState ι τ π κ) (token : κ) : Nat :=
  (s.decided.map fun call => call.incremented.count token).sum

/-- The last time the call queried was for this token, whose expiry is later, and the
token holds all the privileges asked for. -/
def Entitles (access : SessionAccessToken) (token : κ) (call : PrivilegeCall τ κ) : Prop :=
  access.privileges &&& call.privileges = call.privileges ∧
    ∃ earlier systemTime, call.queried = earlier ++ [(token, systemTime)] ∧
      systemTime < access.expiry

def TokenCheckPc.Holds (access : SessionAccessToken) (token : κ) (call : PrivilegeCall τ κ) :
    TokenCheckPc → Prop
  | .keQuerySystemTime => True
  | .readAcquire systemTime => ∃ earlier, call.queried = earlier ++ [(token, systemTime)]
  | .interlockedCompareExchange useCount =>
      Entitles access token call ∧ 0 ≤ access.uses ∧ useCount < access.uses
  | .readAgain => Entitles access token call ∧ 0 ≤ access.uses

def PrivilegePc.Holds (accessToken : κ → SessionAccessToken) (call : PrivilegeCall τ κ) :
    PrivilegePc κ → Prop
  | .check token _ pc => pc.Holds (accessToken token) token call
  | _ => True

/-- A decided call: what granted it, and what it incremented. -/
structure DecidedCall (accessToken : κ → SessionAccessToken) (call : PrivilegeCall τ κ) :
    Prop where
  granted : ∀ token, call.granted = some token → Entitles (accessToken token) token call ∧
    call.incremented = if (accessToken token).uses < 0 then [] else [token]
  denied : call.granted = none → call.incremented = []

structure PrivilegeInv (accessToken : κ → SessionAccessToken) (s : PrivilegeState ι τ π κ) :
    Prop where
  running : ∀ i pc call, s.running i = some (pc, call) →
    call.incremented = [] ∧ pc.Holds accessToken call
  decided : ∀ call ∈ s.decided, DecidedCall accessToken call
  counted : ∀ token, (s.useCount token).toInt = s.increments token
  bounded : ∀ token, 0 ≤ (accessToken token).uses → s.useCount token ≤ (accessToken token).uses

end

section

variable {ι τ π κ : Type} [DecidableEq κ] {accessToken : κ → SessionAccessToken}
  {processContext : τ → Option π} {s s' : PrivilegeState ι τ π κ} {i : ι}
  {call : PrivilegeCall τ κ} {token : κ}

/-! ## Arithmetic of the counts -/

theorem toInt_succ {a b : Int32} (h : a < b) : (a + 1).toInt = a.toInt + 1 := by
  have hlt := Int32.lt_iff_toInt_lt.mp h
  have hb := b.toInt_lt
  have ha := a.le_toInt
  rw [Int32.toInt_add]
  change Int.bmod (a.toInt + 1) (2 ^ 32) = a.toInt + 1
  rw [Int.bmod_eq_of_le (by omega) (by omega)]

theorem succ_le {a b : Int32} (h : a < b) : a + 1 ≤ b := by
  have hlt := Int32.lt_iff_toInt_lt.mp h
  rw [Int32.le_iff_toInt_le, toInt_succ h]
  omega

theorem PrivilegeInv.start :
    PrivilegeInv accessToken (PrivilegeState.start : PrivilegeState ι τ π κ) where
  running i pc call h := by cases h
  decided call h := by cases h
  counted _ := rfl
  bounded _ h := h

theorem PrivilegeInv.increments_eq (hinv : PrivilegeInv accessToken s)
    (hlimited : 0 ≤ (accessToken token).uses) : s.increments token = s.grants token := by
  have hone : ∀ call ∈ s.decided, call.incremented.count token =
      if call.granted = some token then 1 else 0 := by
    intro call hmem
    have hcall := hinv.decided call hmem
    cases hgranted : call.granted with
    | none => simp [hcall.denied hgranted]
    | some other =>
        obtain ⟨-, hincremented⟩ := hcall.granted other hgranted
        by_cases heq : other = token
        · subst heq
          simp [hincremented, Int32.not_lt.mpr hlimited]
        · rw [hincremented]
          split <;> simp [heq]
  rw [PrivilegeState.increments, PrivilegeState.grants, List.map_congr_left hone]
  induction s.decided with
  | nil => rfl
  | cons call l ih =>
      rw [List.map_cons, List.sum_cons, ih, List.countP_cons]
      simp only [decide_eq_true_eq]
      omega

/-! ## One lemma for each way to go on -/

variable [DecidableEq ι]

theorem PrivilegeInv.goto {pc : PrivilegePc κ} (hinv : PrivilegeInv accessToken s)
    (hnone : call.incremented = []) (hpc : pc.Holds accessToken call) :
    PrivilegeInv accessToken (s.goto i call pc) where
  running := by
    intro j pc' call' hj
    by_cases hij : j = i
    · subst hij
      simp only [PrivilegeState.goto, Function.update_self, Option.some.injEq,
        Prod.mk.injEq] at hj
      obtain ⟨rfl, rfl⟩ := hj
      exact ⟨hnone, hpc⟩
    · simp only [PrivilegeState.goto, Function.update_of_ne hij] at hj
      exact hinv.running j pc' call' hj
  decided := hinv.decided
  counted := hinv.counted
  bounded := hinv.bounded

theorem PrivilegeInv.running_finish {granted : Option κ} (hinv : PrivilegeInv accessToken s) :
    ∀ j pc call', (s.finish i call granted).running j = some (pc, call') →
      call'.incremented = [] ∧ pc.Holds accessToken call' := by
  intro j pc call' hj
  by_cases hij : j = i
  · subst hij
    simp [PrivilegeState.finish] at hj
  · simp only [PrivilegeState.finish, Function.update_of_ne hij] at hj
    exact hinv.running j pc call' hj

theorem increments_finish {granted : Option κ} :
    (s.finish i call granted).increments token =
      s.increments token + call.incremented.count token := by
  simp [PrivilegeState.increments, PrivilegeState.finish]

theorem PrivilegeInv.finish {granted : Option κ} (hinv : PrivilegeInv accessToken s)
    (hnone : call.incremented = [])
    (hgranted : ∀ token, granted = some token →
      Entitles (accessToken token) token call ∧ (accessToken token).uses < 0) :
    PrivilegeInv accessToken (s.finish i call granted) where
  running := hinv.running_finish
  decided := by
    intro call' hmem
    rcases List.mem_append.mp hmem with hmem | hmem
    · exact hinv.decided call' hmem
    · obtain rfl := List.mem_singleton.mp hmem
      refine ⟨fun token htoken => ?_, fun _ => hnone⟩
      obtain ⟨hentitles, hunlimited⟩ := hgranted token htoken
      exact ⟨hentitles, by simp only [hnone, if_pos hunlimited]⟩
  counted := by
    intro token
    rw [increments_finish, hnone]
    exact hinv.counted token
  bounded := hinv.bounded

theorem PrivilegeInv.finish_used (hinv : PrivilegeInv accessToken s)
    (hnone : call.incremented = []) (hentitles : Entitles (accessToken token) token call)
    (hlimited : 0 ≤ (accessToken token).uses)
    (hlt : s.useCount token < (accessToken token).uses) :
    PrivilegeInv accessToken ((s.setUseCount token (s.useCount token + 1)).finish i
      { call with incremented := call.incremented ++ [token] } (some token)) where
  running j pc call' hj := by
    have hframe : ∀ j pc call', (s.finish i call (some token)).running j = some (pc, call') →
        call'.incremented = [] ∧ pc.Holds accessToken call' := hinv.running_finish
    exact hframe j pc call' hj
  decided := by
    intro call' hmem
    rcases List.mem_append.mp hmem with hmem | hmem
    · exact hinv.decided call' hmem
    · obtain rfl := List.mem_singleton.mp hmem
      constructor
      · intro token' htoken
        simp only [Option.some.injEq] at htoken
        subst htoken
        refine ⟨hentitles, ?_⟩
        rw [if_neg (Int32.not_lt.mpr hlimited)]
        simp [hnone]
      · intro h
        cases h
  counted := by
    intro other
    rw [increments_finish]
    change (Function.update s.useCount token _ other).toInt =
      ((s.increments other + (call.incremented ++ [token]).count other : Nat) : Int)
    have hcount := hinv.counted other
    by_cases hother : other = token
    · subst hother
      rw [Function.update_self, toInt_succ hlt, hcount, hnone]
      simp
    · rw [Function.update_of_ne hother, hcount, hnone]
      simp [Ne.symm hother]
  bounded := by
    intro other hother
    change Function.update s.useCount token _ other ≤ _
    by_cases heq : other = token
    · subst heq
      rw [Function.update_self]
      exact succ_le hlt
    · rw [Function.update_of_ne heq]
      exact hinv.bounded other hother

theorem PrivilegeInv.deny {fromThread : Bool} (hinv : PrivilegeInv accessToken s)
    (hnone : call.incremented = []) :
    PrivilegeInv accessToken (s.deny processContext i call fromThread) := by
  rw [PrivilegeState.deny.eq_def]
  split
  · exact hinv.goto hnone trivial
  · exact hinv.finish hnone (by intro token h; cases h)

theorem PrivilegeInv.tryUse {fromThread : Bool} (hinv : PrivilegeInv accessToken s)
    (hnone : call.incremented = []) (hentitles : Entitles (accessToken token) token call)
    (hlimited : 0 ≤ (accessToken token).uses) :
    PrivilegeInv accessToken
      (s.tryUse processContext i call token fromThread (accessToken token).uses) := by
  rw [PrivilegeState.tryUse]
  split
  · exact hinv.deny hnone
  · next hlt => exact hinv.goto hnone ⟨hentitles, hlimited, Int32.not_le.mp hlt⟩

/-! ## A step, and a run -/

theorem PrivilegeInv.advance {pc : PrivilegePc κ} {now : Int64}
    (hinv : PrivilegeInv accessToken s) (hrunning : s.running i = some (pc, call)) :
    PrivilegeInv accessToken (s.advance accessToken processContext i call now pc) := by
  obtain ⟨hnone, hpc⟩ := hinv.running i pc call hrunning
  cases pc with
  | referenceThreadToken =>
      rw [PrivilegeState.advance]
      split
      · exact hinv.goto hnone trivial
      · exact hinv.deny hnone
  | referenceProcessToken =>
      rw [PrivilegeState.advance]
      split
      · exact hinv.goto hnone trivial
      · exact hinv.deny hnone
  | check token fromThread pc =>
      cases pc with
      | keQuerySystemTime => exact hinv.goto hnone ⟨call.queried, rfl⟩
      | readAcquire systemTime =>
          rw [PrivilegeState.advance]
          split
          · exact hinv.deny hnone
          · next hexpiry =>
              split
              · exact hinv.deny hnone
              · next hheld =>
                  obtain ⟨earlier, hquery⟩ := hpc
                  have hentitles : Entitles (accessToken token) token call :=
                    ⟨not_not.mp hheld, earlier, systemTime, hquery, Int64.not_le.mp hexpiry⟩
                  split
                  · next hunlimited =>
                      refine hinv.finish hnone ?_
                      intro token' htoken
                      cases htoken
                      exact ⟨hentitles, hunlimited⟩
                  · next hlimited =>
                      exact hinv.tryUse hnone hentitles (Int32.not_lt.mp hlimited)
      | interlockedCompareExchange useCount =>
          obtain ⟨hentitles, hlimited, hlt⟩ := hpc
          rw [PrivilegeState.advance]
          split
          · next hsame =>
              subst hsame
              exact hinv.finish_used hnone hentitles hlimited hlt
          · exact hinv.goto hnone ⟨hentitles, hlimited⟩
      | readAgain =>
          obtain ⟨hentitles, hlimited⟩ := hpc
          exact hinv.tryUse hnone hentitles hlimited

variable [DecidableEq τ] [DecidableEq π]

theorem PrivilegeInv.step (hinv : PrivilegeInv accessToken s)
    (h : PrivilegeStep accessToken processContext s s') : PrivilegeInv accessToken s' := by
  cases h with
  | kphSessionTokenPrivilegeCheck i thread privileges hidle => exact hinv.goto rfl trivial
  | advance i call pc now hrunning => exact hinv.advance hrunning
  | assignThread t token => exact ⟨hinv.running, hinv.decided, hinv.counted, hinv.bounded⟩
  | assignProcess p token => exact ⟨hinv.running, hinv.decided, hinv.counted, hinv.bounded⟩

theorem PrivilegeInv.run
    (h : Relation.ReflTransGen (PrivilegeStep accessToken processContext) .start s) :
    PrivilegeInv accessToken s := by
  induction h with
  | refl => exact .start
  | tail _ hstep ih => exact ih.step hstep

/-! ## Counts and grants -/

/-- One more call was granted by the token, and its count is one more; no other count has
changed. -/
def UsesOnce (s s' : PrivilegeState ι τ π κ) : Prop :=
  ∃ call token, s'.decided = s.decided ++ [call] ∧ call.granted = some token ∧
    call.incremented = [token] ∧ (s'.useCount token).toInt = (s.useCount token).toInt + 1 ∧
    ∀ other, other ≠ token → s'.useCount other = s.useCount other

theorem PrivilegeInv.useCount_step (hinv : PrivilegeInv accessToken s)
    (h : PrivilegeStep accessToken processContext s s') :
    s'.useCount = s.useCount ∨ UsesOnce s s' := by
  have hdeny : ∀ i (call : PrivilegeCall τ κ) fromThread,
      (s.deny processContext i call fromThread).useCount = s.useCount := by
    intro i call fromThread
    rw [PrivilegeState.deny.eq_def]
    split <;> rfl
  have htry : ∀ i (call : PrivilegeCall τ κ) token fromThread uses,
      (s.tryUse processContext i call token fromThread uses).useCount = s.useCount := by
    intro i call token fromThread uses
    rw [PrivilegeState.tryUse]
    split
    · exact hdeny i call fromThread
    · rfl
  cases h with
  | kphSessionTokenPrivilegeCheck i thread privileges hidle => exact Or.inl rfl
  | assignThread t token => exact Or.inl rfl
  | assignProcess p token => exact Or.inl rfl
  | advance i call pc now hrunning =>
      obtain ⟨hnone, hpc⟩ := hinv.running i pc call hrunning
      cases pc with
      | referenceThreadToken =>
          left
          rw [PrivilegeState.advance]
          split
          · rfl
          · exact hdeny i call true
      | referenceProcessToken =>
          left
          rw [PrivilegeState.advance]
          split
          · rfl
          · exact hdeny i call false
      | check token fromThread pc =>
          cases pc with
          | keQuerySystemTime => exact Or.inl rfl
          | readAcquire systemTime =>
              left
              rw [PrivilegeState.advance]
              split
              · exact hdeny i call fromThread
              split
              · exact hdeny i call fromThread
              split
              · rfl
              · exact htry i call token fromThread _
          | readAgain => exact Or.inl (htry i call token fromThread _)
          | interlockedCompareExchange useCount =>
              obtain ⟨-, -, hlt⟩ := hpc
              rw [PrivilegeState.advance]
              split
              · next hsame =>
                  subst hsame
                  refine Or.inr ⟨_, token, rfl, rfl, by simp [hnone], ?_, ?_⟩
                  · change (Function.update s.useCount token _ token).toInt = _
                    rw [Function.update_self, toInt_succ hlt]
                  · intro other hother
                    exact Function.update_of_ne hother _ _
              · exact Or.inl rfl

/-- A session token is never over-used. -/
theorem kphSessionTokenPrivilegeCheck_uses
    (h : Relation.ReflTransGen (PrivilegeStep accessToken processContext) .start s) :
    (∀ token, 0 ≤ (accessToken token).uses → (s.useCount token).toInt = s.grants token ∧
      (s.grants token : Int) ≤ (accessToken token).uses.toInt) ∧
    (∀ call ∈ s.decided, ∀ token, call.granted = some token →
      Entitles (accessToken token) token call) ∧
    (∀ call ∈ s.decided, (call.granted = none → call.incremented = []) ∧
      call.incremented.length ≤ 1) ∧
    (∀ token, (s.useCount token).toInt = s.increments token) ∧
    ∀ s', PrivilegeStep accessToken processContext s s' →
      s'.useCount = s.useCount ∨ UsesOnce s s' := by
  have hinv := PrivilegeInv.run h
  refine ⟨fun token hlimited => ?_, fun call hmem token htoken => ?_, fun call hmem => ?_,
    hinv.counted, fun s' hstep => hinv.useCount_step hstep⟩
  · have hcount : (s.useCount token).toInt = s.grants token := by
      rw [hinv.counted token, hinv.increments_eq hlimited]
    refine ⟨hcount, ?_⟩
    rw [← hcount]
    exact Int32.le_iff_toInt_le.mp (hinv.bounded token hlimited)
  · exact ((hinv.decided call hmem).granted token htoken).1
  · have hcall := hinv.decided call hmem
    refine ⟨hcall.denied, ?_⟩
    cases hgranted : call.granted with
    | none => simp [hcall.denied hgranted]
    | some token =>
        rw [(hcall.granted token hgranted).2]
        split <;> simp

/-- The thread goes on, if it is in a call. -/
def PrivilegeState.next (accessToken : κ → SessionAccessToken) (processContext : τ → Option π)
    (s : PrivilegeState ι τ π κ) (i : ι) (now : Int64) : PrivilegeState ι τ π κ :=
  match s.running i with
  | some (pc, call) => s.advance accessToken processContext i call now pc
  | none => s

theorem PrivilegeState.next_run (i : ι) (now : Int64) :
    Relation.ReflTransGen (PrivilegeStep accessToken processContext) s
      (s.next accessToken processContext i now) := by
  rw [PrivilegeState.next]
  split
  · next hrunning => exact .single (.advance i _ _ now hrunning)
  · exact .refl

theorem PrivilegeState.nexts_run (turns : List (ι × Int64)) :
    Relation.ReflTransGen (PrivilegeStep accessToken processContext) s
      (turns.foldl (fun s turn => s.next accessToken processContext turn.1 turn.2) s) := by
  induction turns generalizing s with
  | nil => exact .refl
  | cons turn turns ih => exact (PrivilegeState.next_run turn.1 turn.2).trans ih

def singleUseToken : SessionAccessToken := ⟨100, 1, 1, [], []⟩

/-- Two threads are about to use the one token. -/
def singleUseCalls : PrivilegeState Bool Unit Unit Unit :=
  let s : PrivilegeState Bool Unit Unit Unit := PrivilegeState.start
  ({ s with threadToken := Function.update s.threadToken () (some ()) }.goto true
    ⟨(), 1, [], [], none⟩ .referenceThreadToken).goto false ⟨(), 1, [], [], none⟩
    .referenceThreadToken

theorem singleUseCalls_run : Relation.ReflTransGen
    (PrivilegeStep (fun _ => singleUseToken) fun _ => none) .start singleUseCalls :=
  ((Relation.ReflTransGen.single (.assignThread () (some ()))).tail
    (.kphSessionTokenPrivilegeCheck true () 1 rfl)).tail
    (.kphSessionTokenPrivilegeCheck false () 1 rfl)

/-- Both threads read the count before either uses the token: one is granted, the other
finds the count changed and is denied. -/
theorem kphSessionTokenPrivilegeCheck_uses_race :
    let turns : List (Bool × Int64) := [(true, 50), (true, 50), (true, 50), (false, 60),
      (false, 60), (false, 60), (true, 70), (false, 70), (false, 70)]
    let s := turns.foldl (fun s turn => s.next (fun _ => singleUseToken) (fun _ => none) turn.1
      turn.2) singleUseCalls
    s.decided.map (·.granted) = [some (), none] ∧
      (s.useCount ()).toInt = s.grants () ∧ (s.grants () : Int) ≤ 1 := by
  intro turns s
  obtain ⟨hcount, -⟩ := kphSessionTokenPrivilegeCheck_uses
    (singleUseCalls_run.trans (PrivilegeState.nexts_run turns))
  exact ⟨by decide +kernel, hcount () (by decide)⟩

end

end SystemInformer.Driver
