import SystemInformer.PhLib.Rundown
import SystemInformer.Proofs.Rundown

/-!
# A rundown that is waited for again

A user compares the word with even values only and leaves it even, so once a wait has marked the
word it stays as it is, unless a wait puts its block there. Without a block every wait that
returns has found the word zero, or marked, and every wait after it finds it marked.

A block stays in the word when its wait has returned. A wait that comes later takes the address
for a number of references, and waits for them.
-/

set_option linter.unusedSectionVars false

namespace SystemInformer.PhLib

variable {τ ω : Type} [DecidableEq τ] [DecidableEq ω]

/-- The value that a user compares the word with is even. -/
def RundownPc.Even : RundownPc → Prop
  | .acquireExchange value => value.toNat % 2 = 0
  | .acquireSlowExchange value => value.toNat % 2 = 0
  | .releaseExchange value => value.toNat % 2 = 0
  | .releaseSlowExchange value => value.toNat % 2 = 0
  | _ => True

/-- The word has not been given a block: it counts, or it is marked. -/
def Unblocked (value : ULongPtr) : Prop := value.toNat % 2 = 0 ∨ value = phRundownActive

/-- The waiter has not put its block into the word. -/
def RundownWaits.InstallsNothing (s : RundownWaits τ ω) (w : ω) : Prop :=
  ∀ value, s.waiter w = .install value → s.value ≠ value

structure RundownWaitsInv (s : RundownWaits τ ω) : Prop where
  unblocked : Unblocked s.value
  even : ∀ t, (s.pc t).Even
  completed : s.completed = true → s.value = phRundownActive
  waiter : ∀ w, s.waiter w ≠ .waitEvent
  late : ∀ w, s.late w = true →
    s.completed = true ∧ (s.waiter w = .exchange ∨ s.waiter w = .returned)

/-! ## The users -/

theorem even_add_ref {value : ULongPtr} (h : value.toNat % 2 = 0) :
    (value + phRundownRefInc).toNat % 2 = 0 := by
  have hinc : phRundownRefInc.toNat = 2 := rfl
  rw [BitVec.toNat_add, hinc]
  omega

theorem even_sub_ref {value : ULongPtr} (h : value.toNat % 2 = 0) :
    (value - phRundownRefInc).toNat % 2 = 0 := by
  have hinc : phRundownRefInc.toNat = 2 := rfl
  rw [BitVec.toNat_sub, hinc]
  omega

theorem even_of_read {value : ULongPtr} : (value &&& ~~~phRundownActive).toNat % 2 = 0 := by
  rw [toNat_and_not_active]
  omega

theorem RundownState.advance_even {waitBlock : WaitBlock} {s : RundownState Unit}
    (heven : (s.pc ()).Even) :
    ((s.advance waitBlock ()).value = s.value ∨
      s.value.toNat % 2 = 0 ∧ (s.advance waitBlock ()).value.toNat % 2 = 0) ∧
      ((s.advance waitBlock ()).pc ()).Even := by
  have hexchange : ∀ {newValue value : ULongPtr} {success failure : RundownPc},
      value.toNat % 2 = 0 → newValue.toNat % 2 = 0 → success.Even → failure.Even →
      ((s.compareExchange () newValue value success failure).value = s.value ∨
        s.value.toNat % 2 = 0 ∧
          (s.compareExchange () newValue value success failure).value.toNat % 2 = 0) ∧
        ((s.compareExchange () newValue value success failure).pc ()).Even := by
    intro newValue value success failure hvalue hnew hsuccess hfailure
    rw [RundownState.compareExchange]
    split
    · next heq => exact ⟨.inr ⟨heq ▸ hvalue, hnew⟩, by simpa [RundownState.goto] using hsuccess⟩
    · exact ⟨.inl rfl, by simpa [RundownState.goto] using hfailure⟩
  have hgoto : ∀ {pc : RundownPc}, pc.Even →
      ((s.goto () pc).value = s.value ∨
        s.value.toNat % 2 = 0 ∧ (s.goto () pc).value.toNat % 2 = 0) ∧
        ((s.goto () pc).pc ()).Even :=
    fun hpc => ⟨.inl rfl, by simpa [RundownState.goto] using hpc⟩
  rw [RundownState.advance]
  cases hpc : s.pc () with
  | idle => exact ⟨.inl rfl, heven⟩
  | held => exact ⟨.inl rfl, heven⟩
  | acquire => exact hgoto even_of_read
  | acquireExchange value =>
      rw [hpc] at heven
      exact hexchange heven (even_add_ref heven) trivial trivial
  | acquireSlow =>
      dsimp only
      split
      · exact hgoto trivial
      · next hactive => exact hgoto ((active_iff _).mp (not_not.mp hactive))
  | acquireSlowExchange value =>
      rw [hpc] at heven
      exact hexchange heven (even_add_ref heven) trivial trivial
  | release => exact hgoto even_of_read
  | releaseExchange value =>
      rw [hpc] at heven
      exact hexchange heven (even_sub_ref heven) trivial trivial
  | releaseSlow =>
      dsimp only
      split
      · exact hgoto trivial
      · next hactive => exact hgoto ((active_iff _).mp (not_not.mp hactive))
  | releaseSlowExchange value =>
      rw [hpc] at heven
      exact hexchange heven (even_sub_ref heven) trivial trivial
  | decrement block =>
      dsimp only
      split
      · refine ⟨.inl rfl, ?_⟩
        show (Function.update s.pc () _ ()).Even
        rw [Function.update_self]
        split
        · trivial
        · trivial
      · exact ⟨.inl rfl, heven⟩
  | setEvent => exact ⟨.inl rfl, by simp [RundownState.goto, RundownPc.Even]⟩

variable {s s' : RundownWaits τ ω}

theorem RundownWaitsInv.goto {t : τ} {pc : RundownPc} (h : RundownWaitsInv s)
    (hpc : s'.pc = Function.update s.pc t pc) (heven : pc.Even)
    (hvalue : s'.value = s.value ∨ s.value.toNat % 2 = 0 ∧ s'.value.toNat % 2 = 0)
    (hcompleted : s'.completed = s.completed) (hwaiter : s'.waiter = s.waiter)
    (hlate : s'.late = s.late) : RundownWaitsInv s' := by
  refine ⟨?_, fun u => ?_, fun hdone => ?_, hwaiter ▸ h.waiter, ?_⟩
  · rcases hvalue with hsame | ⟨-, hnew⟩
    · rw [hsame]
      exact h.unblocked
    · exact .inl hnew
  · rw [hpc]
    by_cases hu : u = t
    · rw [hu, Function.update_self]
      exact heven
    · rw [Function.update_of_ne hu]
      exact h.even u
  · have hactive := h.completed (hcompleted ▸ hdone)
    rcases hvalue with hsame | ⟨hold, -⟩
    · rw [hsame, hactive]
    · rw [hactive] at hold
      cases hold
  · rw [hlate, hcompleted, hwaiter]
    exact h.late

theorem RundownWaitsInv.advance {t : τ} {waitBlock : WaitBlock} (h : RundownWaitsInv s) :
    RundownWaitsInv (s.advance waitBlock t) := by
  obtain ⟨hvalue, heven⟩ := @RundownState.advance_even waitBlock
    (s.view waitBlock.address .idle (s.pc t)) (h.even t)
  exact h.goto rfl heven hvalue rfl rfl rfl

/-! ## The waiters -/

/-- A waiter that installs nothing leaves the word, or marks it when it is zero; it returns from a
word that is marked, and it never waits. -/
theorem RundownState.advanceWaiter_unblocked {waitBlock : WaitBlock} {s : RundownState Unit}
    (hinstalls : ∀ value, s.waiter = .install value → s.value ≠ value)
    (hwaiter : s.waiter ≠ .waitEvent) (hinside : s.waiter.inside = true) :
    ((s.advanceWaiter waitBlock).value = s.value ∨
      s.value = 0 ∧ (s.advanceWaiter waitBlock).value = phRundownActive) ∧
      (s.advanceWaiter waitBlock).waiter ≠ .waitEvent ∧
      ((s.advanceWaiter waitBlock).waiter = .returned →
        (s.advanceWaiter waitBlock).value = phRundownActive) ∧
      (s.waiter = .exchange → s.value = phRundownActive →
        (s.advanceWaiter waitBlock).waiter = .returned) := by
  rw [RundownState.advanceWaiter]
  cases hpc : s.waiter with
  | idle => rw [hpc] at hinside; cases hinside
  | returned => rw [hpc] at hinside; cases hinside
  | waitEvent => exact absurd hpc hwaiter
  | exchange =>
      dsimp only
      split
      · next hzero => exact ⟨.inr ⟨hzero, rfl⟩, by simp, fun _ => rfl, fun _ _ => rfl⟩
      · split
        · next hactive => exact ⟨.inl rfl, by simp, fun _ => hactive, fun _ _ => rfl⟩
        · next hactive => exact ⟨.inl rfl, by simp, by simp, fun _ h => absurd h hactive⟩
  | exchangeSlow =>
      dsimp only
      split
      · next hzero => exact ⟨.inr ⟨hzero, rfl⟩, by simp, fun _ => rfl, by simp⟩
      · split
        · next hactive => exact ⟨.inl rfl, by simp, fun _ => hactive, by simp⟩
        · exact ⟨.inl rfl, by simp, by simp, by simp⟩
  | read => exact ⟨.inl rfl, by simp, by simp, by simp⟩
  | initializeEvent value =>
      dsimp only
      split
      · exact ⟨.inl rfl, by simp, by simp, by simp⟩
      · exact ⟨.inl rfl, by simp, by simp, by simp⟩
  | saveCount value => exact ⟨.inl rfl, by simp, by simp, by simp⟩
  | install value =>
      dsimp only
      rw [if_neg (hinstalls value hpc)]
      exact ⟨.inl rfl, by simp, by simp, by simp⟩

theorem RundownWaitsInv.wait {w : ω} (h : RundownWaitsInv s)
    (hinside : (s.waiter w).inside = true) (hinstalls : s.InstallsNothing w) :
    RundownWaitsInv (s.advanceWaiter w) := by
  obtain ⟨hvalue, hwaits, hreturns, hexchange⟩ :=
    @RundownState.advanceWaiter_unblocked (s.waitBlock w)
      (s.view (s.waitBlock w).address (s.waiter w) .idle) hinstalls (h.waiter w) hinside
  -- the word stays marked
  have hmarked : s.value = phRundownActive →
      (s.advanceWaiter w).value = phRundownActive := by
    intro hactive
    rcases hvalue with hsame | ⟨-, hnew⟩
    · exact hsame.trans hactive
    · exact hnew
  refine ⟨?_, h.even, fun hdone => ?_, fun u => ?_, fun u hlate => ?_⟩
  · rcases hvalue with hsame | ⟨-, hnew⟩
    · show Unblocked (RundownState.value _)
      rw [hsame]
      exact h.unblocked
    · exact .inr hnew
  · rcases Bool.or_eq_true_iff.mp hdone with hdone | hdone
    · exact hmarked (h.completed hdone)
    · exact hreturns (of_decide_eq_true hdone)
  · show Function.update s.waiter w _ u ≠ _
    by_cases hu : u = w
    · rw [hu, Function.update_self]
      exact hwaits
    · rw [Function.update_of_ne hu]
      exact h.waiter u
  · obtain ⟨hdone, hpc⟩ := h.late u hlate
    refine ⟨Bool.or_eq_true_iff.mpr (.inl hdone), ?_⟩
    show Function.update s.waiter w _ u = _ ∨ Function.update s.waiter w _ u = _
    by_cases hu : u = w
    · subst hu
      rw [Function.update_self]
      rcases hpc with hpc | hpc
      · exact .inr (hexchange hpc (h.completed hdone))
      · rw [hpc] at hinside
        cases hinside
    · rw [Function.update_of_ne hu]
      exact hpc

theorem RundownWaitsInv.call {w : ω} {waitBlock : WaitBlock} (h : RundownWaitsInv s) :
    RundownWaitsInv (s.callWait w waitBlock) := by
  refine ⟨h.unblocked, h.even, h.completed, fun u => ?_, fun u hlate => ?_⟩
  · show Function.update s.waiter w .exchange u ≠ _
    by_cases hu : u = w
    · simp [hu]
    · rw [Function.update_of_ne hu]
      exact h.waiter u
  · replace hlate : Function.update s.late w s.completed u = true := hlate
    show s.completed = true ∧
      (Function.update s.waiter w .exchange u = _ ∨ Function.update s.waiter w .exchange u = _)
    by_cases hu : u = w
    · rw [hu, Function.update_self] at hlate
      exact ⟨hlate, .inl (by rw [hu, Function.update_self])⟩
    · rw [Function.update_of_ne hu] at hlate ⊢
      exact h.late u hlate

/-! ## Runs -/

theorem RundownWaitsInv.step (h : RundownWaitsInv s)
    (hstep : RundownWaitsStep RundownWaits.InstallsNothing s s') : RundownWaitsInv s' := by
  cases hstep with
  | advance t waitBlock hnames => exact h.advance
  | acquire t hidle => exact h.goto rfl trivial (.inl rfl) rfl rfl rfl
  | release t hheld => exact h.goto rfl trivial (.inl rfl) rfl rfl rfl
  | call w waitBlock houtside hfree => exact h.call
  | wait w hinside hallowed => exact h.wait hinside hallowed

theorem rundownWaitsInv_start {waitBlock : ω → WaitBlock} :
    RundownWaitsInv (RundownWaits.start waitBlock : RundownWaits τ ω) where
  unblocked := .inl rfl
  even _ := trivial
  completed hno := by cases hno
  waiter _ hno := by cases hno
  late _ hno := by cases hno

/-- Once a wait has returned the word is marked, and a wait that was called after that has its
first compare-exchange before it, which finds the word marked, or has returned. -/
structure RundownWaits.Idempotent (s : RundownWaits τ ω) : Prop where
  marked : s.completed = true → s.value = phRundownActive
  atOnce : ∀ w, s.late w = true → s.waiter w = .exchange ∧
    (s.advanceWaiter w).waiter w = .returned ∨ s.waiter w = .returned

/-- In every run in which no wait puts its block into the word, waiting is idempotent. -/
theorem phWaitForRundownProtection_idempotent {waitBlock : ω → WaitBlock}
    (hrun : Relation.ReflTransGen (RundownWaitsStep RundownWaits.InstallsNothing)
      (RundownWaits.start waitBlock) s) : s.Idempotent := by
  have h : RundownWaitsInv s := by
    induction hrun with
    | refl => exact rundownWaitsInv_start
    | tail _ hstep ih => exact ih.step hstep
  refine ⟨h.completed, fun w hlate => ?_⟩
  obtain ⟨hdone, hexchange | hreturned⟩ := h.late w hlate
  · refine .inl ⟨hexchange, ?_⟩
    have hnext := @RundownState.advanceWaiter_unblocked (s.waitBlock w)
      (s.view (s.waitBlock w).address (s.waiter w) .idle)
      (fun value hno => by rw [RundownWaits.view, hexchange] at hno; cases hno) (h.waiter w)
      (by rw [RundownWaits.view, hexchange]; rfl)
    show Function.update s.waiter w _ w = _
    rw [Function.update_self]
    exact hnext.2.2.2 hexchange (h.completed hdone)
  · exact .inr hreturned

/-! ## Two waits, without references and with one -/

def otherBlock : WaitBlock := ⟨0x6ff0, by decide, by decide⟩

/-- Two threads wait, one after the other, for a rundown without references. -/
def waitedTwice : RundownWaits Unit Bool :=
  let first : RundownWaits Unit Bool :=
    ((RundownWaits.start fun _ => stackBlock).callWait false stackBlock).advanceWaiter false
  (first.callWait true otherBlock).advanceWaiter true

theorem waitedTwice_run :
    Relation.ReflTransGen (RundownWaitsStep RundownWaits.InstallsNothing)
      (RundownWaits.start fun _ => stackBlock) waitedTwice := by
  have hcall : ∀ {s : RundownWaits Unit Bool} (w : Bool) (waitBlock : WaitBlock),
      (∀ u, (s.waiter u).inside = false) →
      RundownWaitsStep RundownWaits.InstallsNothing s (s.callWait w waitBlock) :=
    fun w _ houtside => .call w _ (houtside w) fun u hu => by rw [houtside u] at hu; cases hu
  have hwait : ∀ {s : RundownWaits Unit Bool} {w : Bool}, s.waiter w = .exchange →
      RundownWaitsStep RundownWaits.InstallsNothing s (s.advanceWaiter w) :=
    fun hpc => .wait _ (by rw [hpc]; rfl) fun value hno => by rw [hpc] at hno; cases hno
  exact .head (hcall false stackBlock fun _ => rfl) (.head (hwait rfl)
    (.head (hcall true otherBlock (by decide)) (.single (hwait rfl))))

theorem phWaitForRundownProtection_idempotent_twice : waitedTwice.late true = true ∧
    waitedTwice.Idempotent :=
  ⟨by decide, phWaitForRundownProtection_idempotent waitedTwice_run⟩

def RundownWaits.goUser (s : RundownWaits Unit Bool) (n : Nat) : RundownWaits Unit Bool :=
  (fun s => s.advance stackBlock ())^[n] s

def RundownWaits.goWaiter (s : RundownWaits Unit Bool) (w : Bool) (n : Nat) :
    RundownWaits Unit Bool :=
  (fun s => s.advanceWaiter w)^[n] s

def referenceHeld : RundownWaits Unit Bool :=
  ((RundownWaits.start fun _ => stackBlock).goto () .acquire).goUser 2

/-- A thread has waited for the user, who has released its reference. -/
def waitedForUser : RundownWaits Unit Bool :=
  ((((referenceHeld.callWait false stackBlock).goWaiter false 6).goto () .release).goUser
    5).goWaiter false 1

def waitedAgain : RundownWaits Unit Bool := (waitedForUser.callWait true otherBlock).goWaiter true 6

theorem waitedAgain_run : Relation.ReflTransGen (RundownWaitsStep fun _ _ => True)
    (RundownWaits.start fun _ => stackBlock) waitedAgain := by
  have hcall : ∀ {s : RundownWaits Unit Bool} (w : Bool) (waitBlock : WaitBlock),
      (∀ u, (s.waiter u).inside = false) →
      RundownWaitsStep (fun _ _ => True) s (s.callWait w waitBlock) :=
    fun w _ houtside => .call w _ (houtside w) fun u hu => by rw [houtside u] at hu; cases hu
  have hgo : ∀ (s : RundownWaits Unit Bool) (n : Nat),
      (∀ k < n, (s.goUser k).names () stackBlock = true) →
      Relation.ReflTransGen (RundownWaitsStep fun _ _ => True) s (s.goUser n) :=
    fun s n hnames => Runs.iterate_run_of fun k hk => .advance () stackBlock (hnames k hk)
  have hwait : ∀ (s : RundownWaits Unit Bool) (w : Bool) (n : Nat),
      (∀ k < n, ((s.goWaiter w k).waiter w).inside = true) →
      Relation.ReflTransGen (RundownWaitsStep fun _ _ => True) s (s.goWaiter w n) :=
    fun s w n hinside => Runs.iterate_run_of fun k hk => .wait w (hinside k hk) trivial
  have hheld : Relation.ReflTransGen (RundownWaitsStep fun _ _ => True)
      (RundownWaits.start fun _ => stackBlock) referenceHeld :=
    .head (.acquire () rfl) (hgo _ 2 (by decide))
  have hwaited : Relation.ReflTransGen (RundownWaitsStep fun _ _ => True) referenceHeld
      waitedForUser :=
    .head (hcall false stackBlock (by decide)) ((hwait _ false 6 (by decide)).trans
      (.head (.release () rfl) ((hgo _ 5 (by decide)).trans
        (hwait _ false 1 (by decide)))))
  exact hheld.trans (hwaited.trans (.head (hcall true otherBlock (by decide))
    (hwait _ true 6 (by decide))))

/-- A wait that comes after one that had to wait installs a block, and waits when nobody has a
reference. -/
theorem phWaitForRundownProtection_waitsAgain : ∃ s : RundownWaits Unit Bool,
    Relation.ReflTransGen (RundownWaitsStep fun _ _ => True)
      (RundownWaits.start fun _ => stackBlock) s ∧
      s.completed = true ∧ s.late true = true ∧ s.waiter true = .waitEvent ∧
      s.value = otherBlock.address ||| phRundownActive ∧ s.pc () = .idle :=
  ⟨waitedAgain, waitedAgain_run, by decide, by decide, by decide,
    by decide, rfl⟩

end SystemInformer.PhLib
