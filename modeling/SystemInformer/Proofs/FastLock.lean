import SystemInformer.PhLib.FastLock
import SystemInformer.Lib.Census
import SystemInformer.Lib.Runs

/-!
# The fast lock is a reader/writer lock

Every number in the word is a number of threads: who owns the lock shared, who has counted
itself as a waiter and whose signal is still to come. The threads are fewer than a field
can count, so no sum of fields reaches the next field, and what a compare-exchange does to
the word it does to the fields one by one.

Whether the word lets a thread have the lock is decided on the value it read, and the
compare-exchange succeeds only on that value. So a shared owner joins only when no
exclusive waiter is counted, and shared waiters are counted only behind an exclusive owner
or behind exclusive waiters. When the last owner leaves, it hands the lock to an exclusive
waiter if there is one; if there is none, the shared waiters were waiting for an exclusive
owner, and it is the exclusive release that lets all of them go.

Between the compare-exchange of a release and its `NtReleaseSemaphore` the waiters it took
off the count are in neither number; what the release still owes stands for them.
-/

set_option linter.unusedSectionVars false

namespace SystemInformer.PhLib

@[ext] structure FastLockFields where
  owned : Int
  exclusiveWaking : Int
  sharedOwners : Int
  sharedWaiters : Int
  exclusiveWaiters : Int

def fastLockFields (value : ULong) : FastLockFields where
  owned := BitField.field 0 1 value
  exclusiveWaking := BitField.field 1 1 value
  sharedOwners := BitField.field 2 10 value
  sharedWaiters := BitField.field 12 10 value
  exclusiveWaiters := BitField.field 22 10 value

/-- No field is larger or smaller than what it can hold. -/
structure FastLockFields.Fit (f : FastLockFields) : Prop where
  owned : 0 ≤ f.owned ∧ f.owned < 2
  exclusiveWaking : 0 ≤ f.exclusiveWaking ∧ f.exclusiveWaking < 2
  sharedOwners : 0 ≤ f.sharedOwners ∧ f.sharedOwners < 1024
  sharedWaiters : 0 ≤ f.sharedWaiters ∧ f.sharedWaiters < 1024
  exclusiveWaiters : 0 ≤ f.exclusiveWaiters ∧ f.exclusiveWaiters < 1024

def FastLockFields.word (f : FastLockFields) : Int :=
  f.owned + 2 * f.exclusiveWaking + 4 * f.sharedOwners + 4096 * f.sharedWaiters +
    4194304 * f.exclusiveWaiters

/-- What the compare-exchange of a place is to do to the fields. -/
def FastLockPc.change (f : FastLockFields) : FastLockPc → FastLockFields
  | .takeExclusive _ => { f with owned := f.owned + 1 }
  | .queueExclusive _ => { f with exclusiveWaiters := f.exclusiveWaiters + 1 }
  | .claimExclusive _ =>
      { f with owned := f.owned + 1, exclusiveWaking := f.exclusiveWaking - 1 }
  | .takeShared _ => { f with owned := f.owned + 1, sharedOwners := f.sharedOwners + 1 }
  | .joinShared _ => { f with sharedOwners := f.sharedOwners + 1 }
  | .queueShared _ => { f with sharedWaiters := f.sharedWaiters + 1 }
  | .giveExclusive _ =>
      if f.exclusiveWaiters ≠ 0 then
        { f with
          owned := f.owned - 1
          exclusiveWaking := f.exclusiveWaking + 1
          exclusiveWaiters := f.exclusiveWaiters - 1 }
      else { f with owned := f.owned - 1, sharedWaiters := 0 }
  | .giveShared _ =>
      if f.sharedOwners > 1 then { f with sharedOwners := f.sharedOwners - 1 }
      else if f.exclusiveWaiters ≠ 0 then
        { f with
          owned := f.owned - 1
          exclusiveWaking := f.exclusiveWaking + 1
          sharedOwners := f.sharedOwners - 1
          exclusiveWaiters := f.exclusiveWaiters - 1 }
      else { f with owned := f.owned - 1, sharedOwners := f.sharedOwners - 1 }
  | .tryTakeExclusive _ => { f with owned := f.owned + 1 }
  | .tryTakeShared _ => { f with owned := f.owned + 1, sharedOwners := f.sharedOwners + 1 }
  | .tryJoinShared _ => { f with sharedOwners := f.sharedOwners + 1 }
  | _ => f

/-! ## The word and its fields -/

theorem fastLockFields_fit (value : ULong) : (fastLockFields value).Fit := by
  refine ⟨?_, ?_, ?_, ?_, ?_⟩ <;> simp only [fastLockFields, BitField.field] <;> omega

theorem word_fastLockFields (value : ULong) : (fastLockFields value).word = value.toNat := by
  have hlt := value.isLt
  simp only [FastLockFields.word, fastLockFields, BitField.field]
  omega

theorem FastLockFields.Fit.word_range {f : FastLockFields} (h : f.Fit) :
    0 ≤ f.word ∧ f.word < 4294967296 := by
  obtain ⟨ho, hw, hso, hsw, hew⟩ := h
  simp only [FastLockFields.word]
  omega

theorem fastLockFields_eq {value : ULong} {f : FastLockFields} (hfit : f.Fit)
    (hword : (value.toNat : Int) = f.word) : fastLockFields value = f := by
  obtain ⟨ho, hw, hso, hsw, hew⟩ := hfit
  simp only [FastLockFields.word] at hword
  ext <;> simp only [fastLockFields, BitField.field] <;> omega

@[simp] theorem toNat_phLockOwned : phLockOwned.toNat = 1 := rfl

@[simp] theorem toNat_phLockExclusiveWaking : phLockExclusiveWaking.toNat = 2 := rfl

@[simp] theorem toNat_phLockSharedOwnersInc : phLockSharedOwnersInc.toNat = 4 := rfl

@[simp] theorem toNat_phLockSharedWaitersInc : phLockSharedWaitersInc.toNat = 4096 := rfl

@[simp] theorem toNat_phLockExclusiveWaitersInc : phLockExclusiveWaitersInc.toNat = 4194304 := rfl

theorem and_owned (value : ULong) : value &&& phLockOwned = 0 ↔ (fastLockFields value).owned = 0 := by
  have h := BitField.and_mask_eq_zero (k := 0) (w := 1) (by decide) value
  simp only [fastLockFields]
  exact h.trans (by omega)

theorem and_exclusiveWaking (value : ULong) :
    value &&& phLockExclusiveWaking = 0 ↔ (fastLockFields value).exclusiveWaking = 0 := by
  have h := BitField.and_mask_eq_zero (k := 1) (w := 1) (by decide) value
  simp only [fastLockFields]
  exact h.trans (by omega)

theorem and_sharedOwners (value : ULong) :
    value &&& (phLockSharedOwnersMask <<< phLockSharedOwnersShift) = 0 ↔
      (fastLockFields value).sharedOwners = 0 := by
  have h := BitField.and_mask_eq_zero (k := 2) (w := 10) (by decide) value
  simp only [fastLockFields]
  exact h.trans (by omega)

theorem and_exclusiveWaiters (value : ULong) :
    value &&& (phLockExclusiveWaitersMask <<< phLockExclusiveWaitersShift) = 0 ↔
      (fastLockFields value).exclusiveWaiters = 0 := by
  have h := BitField.and_mask_eq_zero (k := 22) (w := 10) (by decide) value
  simp only [fastLockFields]
  exact h.trans (by omega)

theorem and_exclusiveMask (value : ULong) :
    value &&& phLockExclusiveMask = 0 ↔ (fastLockFields value).exclusiveWaking = 0 ∧
      (fastLockFields value).exclusiveWaiters = 0 :=
  (BitField.and_or_eq_zero value _ _).trans
    (and_congr (and_exclusiveWaking value) (and_exclusiveWaiters value))

theorem toNat_sharedOwnersOf (value : ULong) :
    ((sharedOwnersOf value).toNat : Int) = (fastLockFields value).sharedOwners :=
  congrArg Nat.cast (BitField.toNat_shift_and (k := 2) (w := 10) (by decide) value)

theorem toNat_sharedWaitersOf (value : ULong) :
    ((sharedWaitersOf value).toNat : Int) = (fastLockFields value).sharedWaiters :=
  congrArg Nat.cast (BitField.toNat_shift_and (k := 12) (w := 10) (by decide) value)

theorem toNat_exclusiveWaitersOf (value : ULong) :
    ((exclusiveWaitersOf value).toNat : Int) = (fastLockFields value).exclusiveWaiters :=
  congrArg Nat.cast (BitField.toNat_shift_and (k := 22) (w := 10) (by decide) value)

theorem toNat_and_not_ownedWaiters (value : ULong) :
    ((value &&& ~~~(phLockOwned ||| (phLockSharedWaitersMask <<< phLockSharedWaitersShift))).toNat :
      Int) = value.toNat - (fastLockFields value).owned -
        4096 * (fastLockFields value).sharedWaiters := by
  have howned := BitField.toNat_and_not_mask (k := 0) (w := 1) (by decide) value
  have hwaiters := BitField.toNat_and_not_mask (k := 12) (w := 10) (by decide)
    (value &&& ~~~BitField.mask 32 0 1)
  have hsplit : value &&& ~~~(phLockOwned ||| (phLockSharedWaitersMask <<< phLockSharedWaitersShift)) =
      value &&& ~~~BitField.mask 32 0 1 &&& ~~~BitField.mask 32 12 10 := by
    rw [BitVec.not_or, BitVec.and_assoc]
    rfl
  rw [hsplit]
  simp only [fastLockFields, BitField.field] at *
  omega

/-! ## Who is where -/

/-- Numbers of threads; the signals are those that a release still owes. -/
structure FastLockTally where
  exclusiveOwners : Nat := 0
  sharedOwners : Nat := 0
  exclusiveClaims : Nat := 0
  exclusiveWaiters : Nat := 0
  exclusiveSignals : Nat := 0
  sharedWaiters : Nat := 0
  sharedSignals : Nat := 0

def FastLockPc.tally : FastLockPc → FastLockTally
  | .exclusive => { exclusiveOwners := 1 }
  | .releaseExclusive => { exclusiveOwners := 1 }
  | .giveExclusive _ => { exclusiveOwners := 1 }
  | .shared => { sharedOwners := 1 }
  | .releaseShared => { sharedOwners := 1 }
  | .giveShared _ => { sharedOwners := 1 }
  | .waitExclusive => { exclusiveWaiters := 1 }
  | .wokenExclusive => { exclusiveClaims := 1 }
  | .claimExclusive _ => { exclusiveClaims := 1 }
  | .signalExclusive => { exclusiveSignals := 1 }
  | .waitShared => { sharedWaiters := 1 }
  | .signalShared count => { sharedSignals := count }
  | _ => {}

section

variable {τ : Type} [Fintype τ]

def FastLockState.tally (s : FastLockState τ) : FastLockTally where
  exclusiveOwners := Census.total (fun pc => pc.tally.exclusiveOwners) s.pc
  sharedOwners := Census.total (fun pc => pc.tally.sharedOwners) s.pc
  exclusiveClaims := Census.total (fun pc => pc.tally.exclusiveClaims) s.pc
  exclusiveWaiters := Census.total (fun pc => pc.tally.exclusiveWaiters) s.pc
  exclusiveSignals := Census.total (fun pc => pc.tally.exclusiveSignals) s.pc
  sharedWaiters := Census.total (fun pc => pc.tally.sharedWaiters) s.pc
  sharedSignals := Census.total (fun pc => pc.tally.sharedSignals) s.pc

structure FastLockTally.Moved (n n' a b : FastLockTally) : Prop where
  exclusiveOwners : n'.exclusiveOwners + a.exclusiveOwners = n.exclusiveOwners + b.exclusiveOwners
  sharedOwners : n'.sharedOwners + a.sharedOwners = n.sharedOwners + b.sharedOwners
  exclusiveClaims : n'.exclusiveClaims + a.exclusiveClaims = n.exclusiveClaims + b.exclusiveClaims
  exclusiveWaiters :
    n'.exclusiveWaiters + a.exclusiveWaiters = n.exclusiveWaiters + b.exclusiveWaiters
  exclusiveSignals :
    n'.exclusiveSignals + a.exclusiveSignals = n.exclusiveSignals + b.exclusiveSignals
  sharedWaiters : n'.sharedWaiters + a.sharedWaiters = n.sharedWaiters + b.sharedWaiters
  sharedSignals : n'.sharedSignals + a.sharedSignals = n.sharedSignals + b.sharedSignals

/-- The threads that the fields count are fewer than a field can count. -/
structure FastLockTally.Few (n : FastLockTally) : Prop where
  sharedOwners : n.sharedOwners < 1024
  exclusiveWaiters : n.exclusiveWaiters < 1024
  sharedWaiters : n.sharedWaiters < 1024

theorem FastLockState.few (hcard : Fintype.card τ < 1024) (s : FastLockState τ) : s.tally.Few := by
  have hle : ∀ pc : FastLockPc, pc.tally.sharedOwners ≤ 1 ∧ pc.tally.exclusiveWaiters ≤ 1 ∧
      pc.tally.sharedWaiters ≤ 1 := by
    intro pc
    cases pc <;> simp [FastLockPc.tally]
  exact ⟨(Census.total_le_card (fun pc => (hle pc).1) s.pc).trans_lt hcard,
    (Census.total_le_card (fun pc => (hle pc).2.1) s.pc).trans_lt hcard,
    (Census.total_le_card (fun pc => (hle pc).2.2) s.pc).trans_lt hcard⟩

variable [DecidableEq τ]

theorem FastLockState.tally_moved {s r : FastLockState τ} {t : τ} {pc : FastLockPc}
    (hpc : r.pc = Function.update s.pc t pc) :
    s.tally.Moved r.tally (s.pc t).tally pc.tally := by
  have hmoved := fun weight : FastLockPc → Nat => Census.total_update weight s.pc t pc
  rw [← hpc] at hmoved
  exact ⟨hmoved fun pc => pc.tally.exclusiveOwners,
    hmoved fun pc => pc.tally.sharedOwners,
    hmoved fun pc => pc.tally.exclusiveClaims,
    hmoved fun pc => pc.tally.exclusiveWaiters,
    hmoved fun pc => pc.tally.exclusiveSignals,
    hmoved fun pc => pc.tally.sharedWaiters,
    hmoved fun pc => pc.tally.sharedSignals⟩

end

/-! ## What the fields tell -/

def FastLockFields.FreeToOwn (f : FastLockFields) : Prop :=
  f.owned = 0 ∧ f.exclusiveWaking = 0

def FastLockFields.FreeToShare (f : FastLockFields) : Prop :=
  f.owned = 0 ∧ f.exclusiveWaking = 0 ∧ f.exclusiveWaiters = 0

def FastLockFields.OpenToShare (f : FastLockFields) : Prop :=
  f.owned ≠ 0 ∧ 0 < f.sharedOwners ∧ f.exclusiveWaking = 0 ∧ f.exclusiveWaiters = 0

/-- What the value that a thread has read let it go on to. -/
def FastLockPc.Read : FastLockPc → Prop
  | .takeExclusive value => (fastLockFields value).FreeToOwn
  | .ensureExclusive value => ¬(fastLockFields value).FreeToOwn
  | .queueExclusive value => ¬(fastLockFields value).FreeToOwn
  | .takeShared value => (fastLockFields value).FreeToShare
  | .joinShared value => (fastLockFields value).OpenToShare
  | .ensureShared value =>
      ¬((fastLockFields value).FreeToShare ∧ (fastLockFields value).sharedOwners = 0) ∧
        ¬(fastLockFields value).OpenToShare
  | .queueShared value =>
      ¬((fastLockFields value).FreeToShare ∧ (fastLockFields value).sharedOwners = 0) ∧
        ¬(fastLockFields value).OpenToShare
  | .tryTakeExclusive value => (fastLockFields value).FreeToOwn
  | .tryTakeShared value => (fastLockFields value).FreeToShare
  | .tryJoinShared value => (fastLockFields value).OpenToShare
  | _ => True

/-- The places from which a thread goes on to wait on the semaphore. -/
def FastLockPc.usesExclusive : FastLockPc → Bool
  | .queueExclusive _ => true
  | .waitExclusive => true
  | _ => false

def FastLockPc.usesShared : FastLockPc → Bool
  | .queueShared _ => true
  | .waitShared => true
  | _ => false

/-- How the lock is owned. While it is free nobody waits; behind shared owners a shared
waiter waits only where an exclusive waiter does. -/
inductive FastLockMode (f : FastLockFields) (n : FastLockTally) : Prop where
  | free (howned : f.owned = 0) (hwaking : f.exclusiveWaking = 0)
      (howners : n.exclusiveOwners = 0 ∧ n.sharedOwners = 0)
      (hwaiters : f.exclusiveWaiters = 0 ∧ f.sharedWaiters = 0)
  | handed (howned : f.owned = 0) (hwaking : f.exclusiveWaking = 1)
      (howners : n.exclusiveOwners = 0 ∧ n.sharedOwners = 0)
  | exclusive (howned : f.owned = 1) (hwaking : f.exclusiveWaking = 0)
      (howners : n.exclusiveOwners = 1 ∧ n.sharedOwners = 0)
  | shared (howned : f.owned = 1) (hwaking : f.exclusiveWaking = 0)
      (howners : n.exclusiveOwners = 0 ∧ 0 < n.sharedOwners)
      (hwaiters : 0 < f.sharedWaiters → 0 < f.exclusiveWaiters)

/-- The fields, the counts of the semaphores and the numbers of threads agree. -/
structure FastLockBalance (f : FastLockFields) (n : FastLockTally) (exclusive shared : Nat) :
    Prop where
  mode : FastLockMode f n
  sharedOwners : f.sharedOwners = n.sharedOwners
  waking : f.exclusiveWaking = n.exclusiveSignals + exclusive + n.exclusiveClaims
  exclusiveWaiters : exclusive + f.exclusiveWaiters + n.exclusiveSignals = n.exclusiveWaiters
  sharedWaiters : shared + f.sharedWaiters + n.sharedSignals = n.sharedWaiters
  counts : 0 ≤ f.exclusiveWaiters ∧ 0 ≤ f.sharedWaiters

theorem FastLockBalance.fit {f : FastLockFields} {n : FastLockTally} {exclusive shared : Nat}
    (h : FastLockBalance f n exclusive shared) (hfew : n.Few) : f.Fit := by
  obtain ⟨hmode, hso, -, hew, hsw, hcounts⟩ := h
  obtain ⟨hfewso, hfewew, hfewsw⟩ := hfew
  have hflags : (f.owned = 0 ∨ f.owned = 1) ∧ (f.exclusiveWaking = 0 ∨ f.exclusiveWaking = 1) := by
    cases hmode <;> omega
  refine ⟨?_, ?_, ?_, ?_, ?_⟩ <;> omega

section

variable {τ : Type} [Fintype τ] [DecidableEq τ]

structure FastLockInv (s : FastLockState τ) : Prop where
  balance : FastLockBalance (fastLockFields s.value) s.tally (s.exclusiveWakeEvent.getD 0)
    (s.sharedWakeEvent.getD 0)
  exclusiveEvent : ∀ t, (s.pc t).usesExclusive = true → s.exclusiveWakeEvent ≠ none
  sharedEvent : ∀ t, (s.pc t).usesShared = true → s.sharedWakeEvent ≠ none
  read : ∀ t, (s.pc t).Read

/-- What a step of a thread keeps, and what it does to the fields. -/
structure FastLockNext (s s' : FastLockState τ) (t : τ) : Prop where
  inv : FastLockInv s'
  fields : fastLockFields s'.value = fastLockFields s.value ∨
    fastLockFields s'.value = (s.pc t).change (fastLockFields s.value)

variable {s : FastLockState τ} {t : τ} {pc : FastLockPc}

theorem forall_update (P : FastLockPc → Prop)
    (h : ∀ u, P (s.pc u)) (hpc : P pc) (u : τ) : P (Function.update s.pc t pc u) := by
  by_cases hu : u = t
  · rw [hu, Function.update_self]
    exact hpc
  · rw [Function.update_of_ne hu]
    exact h u

theorem FastLockInv.step {s s' : FastLockState τ} (h : FastLockInv s)
    (hpc : s'.pc = Function.update s.pc t pc) (hread : pc.Read)
    (hexclusive : s'.exclusiveWakeEvent = none → s.exclusiveWakeEvent = none)
    (hshared : s'.sharedWakeEvent = none → s.sharedWakeEvent = none)
    (husesExclusive : pc.usesExclusive = true → s'.exclusiveWakeEvent ≠ none)
    (husesShared : pc.usesShared = true → s'.sharedWakeEvent ≠ none)
    (hbalance : ∀ n, s.tally.Moved n (s.pc t).tally pc.tally → FastLockBalance
      (fastLockFields s'.value) n (s'.exclusiveWakeEvent.getD 0) (s'.sharedWakeEvent.getD 0)) :
    FastLockInv s' := by
  refine ⟨hbalance _ (FastLockState.tally_moved hpc), ?_, ?_, ?_⟩
  · rw [hpc]
    exact forall_update (fun pc => pc.usesExclusive = true → _)
      (fun u hu hnone => h.exclusiveEvent u hu (hexclusive hnone)) husesExclusive
  · rw [hpc]
    exact forall_update (fun pc => pc.usesShared = true → _)
      (fun u hu hnone => h.sharedEvent u hu (hshared hnone)) husesShared
  · rw [hpc]
    exact forall_update _ h.read hread

theorem FastLockInv.goto (h : FastLockInv s)
    (htally : pc.tally = (s.pc t).tally) (hread : pc.Read)
    (husesExclusive : pc.usesExclusive = true → s.exclusiveWakeEvent ≠ none)
    (husesShared : pc.usesShared = true → s.sharedWakeEvent ≠ none) :
    FastLockNext s (s.goto t pc) t := by
  refine ⟨h.step rfl hread id id husesExclusive husesShared fun n hmoved => ?_, .inl rfl⟩
  have hsame : n = s.tally := by
    obtain ⟨h1, h2, h3, h4, h5, h6, h7⟩ := htally ▸ hmoved
    rw [FastLockTally.mk.injEq]
    exact ⟨Nat.add_right_cancel h1, Nat.add_right_cancel h2, Nat.add_right_cancel h3,
      Nat.add_right_cancel h4, Nat.add_right_cancel h5, Nat.add_right_cancel h6,
      Nat.add_right_cancel h7⟩
  exact hsame ▸ h.balance

/-- A compare-exchange that fails leads to a place like the one before; one that succeeds
does to the fields what it is to do. -/
theorem FastLockInv.compareExchange {newValue value : ULong}
    {pc success failure : FastLockPc} (hcard : Fintype.card τ < 1024) (h : FastLockInv s)
    (hpc : s.pc t = pc) (hfailure : failure.tally = pc.tally) (hfailureRead : failure.Read)
    (hfailureUses : failure.usesExclusive = false ∧ failure.usesShared = false)
    (hsuccessRead : success.Read)
    (hsuccessUses : (success.usesExclusive = true → pc.usesExclusive = true) ∧
      (success.usesShared = true → pc.usesShared = true))
    (hbalance : ∀ n x y, FastLockBalance (fastLockFields value) s.tally x y → pc.Read →
      s.tally.Moved n pc.tally success.tally →
      FastLockBalance (pc.change (fastLockFields value)) n x y)
    (hword : (pc.change (fastLockFields value)).Fit →
      (newValue.toNat : Int) = (pc.change (fastLockFields value)).word) :
    FastLockNext s (s.compareExchange t newValue value success failure) t := by
  subst hpc
  unfold FastLockState.compareExchange
  split
  · next heq =>
    have hnew : ∀ n, s.tally.Moved n (s.pc t).tally success.tally →
        FastLockBalance ((s.pc t).change (fastLockFields value)) n (s.exclusiveWakeEvent.getD 0)
          (s.sharedWakeEvent.getD 0) :=
      fun n hmoved => hbalance n _ _ (heq ▸ h.balance) (h.read t) hmoved
    have hfit := (hnew _ (FastLockState.tally_moved (r := { s with value := newValue }.goto t success)
      rfl)).fit (FastLockState.few hcard _)
    have hfields := fastLockFields_eq hfit (hword hfit)
    refine ⟨h.step rfl hsuccessRead id id (fun hu => h.exclusiveEvent t (hsuccessUses.1 hu))
      (fun hu => h.sharedEvent t (hsuccessUses.2 hu)) fun n hmoved => ?_, .inr ?_⟩
    · show FastLockBalance (fastLockFields newValue) _ _ _
      rw [hfields]
      exact hnew n hmoved
    · rw [heq]
      exact hfields
  · exact h.goto hfailure hfailureRead
      (fun hu => (by rw [hfailureUses.1] at hu; cases hu))
      (fun hu => (by rw [hfailureUses.2] at hu; cases hu))

/-! ## The acquires -/

attribute [grind =] FastLockPc.tally FastLockPc.change FastLockFields.word

variable {value : ULong}

theorem FastLockInv.takeExclusive
    (hcard : Fintype.card τ < 1024) (h : FastLockInv s) (hpc : s.pc t = .takeExclusive value) :
    FastLockNext s (s.compareExchange t (value + phLockOwned) value .exclusive .acquireExclusive) t := by
  refine h.compareExchange hcard hpc rfl trivial ⟨rfl, rfl⟩ trivial
    ⟨fun hu => (by cases hu), fun hu => (by cases hu)⟩ (fun n x y hold hread hmoved => ?_) fun hfit => ?_
  · obtain ⟨hfree, hasleep⟩ := hread
    obtain ⟨h1, h2, h3, h4, h5, h6, h7⟩ := hmoved
    obtain ⟨hmode, g1, g2, g3, g4, g5⟩ := hold
    simp only [FastLockPc.tally, FastLockPc.change] at *
    cases hmode with
    | free ho hw hn hz =>
        refine ⟨.exclusive ?_ ?_ ?_, ?_, ?_, ?_, ?_, ?_⟩ <;>
          first | (dsimp only; omega) | omega
    | handed ho hw hn => omega
    | exclusive ho hw hn => omega
    | shared ho hw hn hz => omega
  · have hword := word_fastLockFields value
    obtain ⟨hlow, hhigh⟩ := hfit.word_range
    simp only [FastLockPc.change, FastLockFields.word, BitVec.toNat_add, toNat_phLockOwned] at *
    omega

theorem FastLockInv.queueExclusive
    (hcard : Fintype.card τ < 1024) (h : FastLockInv s) (hpc : s.pc t = .queueExclusive value) :
    FastLockNext s
      (s.compareExchange t (value + phLockExclusiveWaitersInc) value .waitExclusive .acquireExclusive) t := by
  refine h.compareExchange hcard hpc rfl trivial ⟨rfl, rfl⟩ trivial
    ⟨fun _ => rfl, fun hu => (by cases hu)⟩ (fun n x y hold hread hmoved => ?_) fun hfit => ?_
  · obtain ⟨h1, h2, h3, h4, h5, h6, h7⟩ := hmoved
    obtain ⟨hmode, g1, g2, g3, g4, g5⟩ := hold
    simp only [FastLockPc.tally, FastLockPc.change] at *
    cases hmode with
    | free ho hw hn hz => exact absurd ⟨ho, hw⟩ hread
    | handed ho hw hn =>
        refine ⟨.handed ?_ ?_ ?_, ?_, ?_, ?_, ?_, ?_⟩ <;>
          first | (dsimp only; omega) | omega
    | exclusive ho hw hn =>
        refine ⟨.exclusive ?_ ?_ ?_, ?_, ?_, ?_, ?_, ?_⟩ <;>
          first | (dsimp only; omega) | omega
    | shared ho hw hn hz =>
        refine ⟨.shared ?_ ?_ ?_ ?_, ?_, ?_, ?_, ?_, ?_⟩ <;>
          first | (dsimp only; omega) | omega
  · have hword := word_fastLockFields value
    obtain ⟨hlow, hhigh⟩ := hfit.word_range
    simp only [FastLockPc.change, FastLockFields.word] at *
    rw [BitVec.toNat_add, toNat_phLockExclusiveWaitersInc]
    omega

theorem FastLockInv.claimExclusive
    (hcard : Fintype.card τ < 1024) (h : FastLockInv s) (hpc : s.pc t = .claimExclusive value) :
    FastLockNext s
      (s.compareExchange t (value + phLockOwned - phLockExclusiveWaking) value .exclusive .wokenExclusive) t := by
  refine h.compareExchange hcard hpc rfl trivial ⟨rfl, rfl⟩ trivial
    ⟨fun hu => (by cases hu), fun hu => (by cases hu)⟩ (fun n x y hold hread hmoved => ?_) fun hfit => ?_
  · obtain ⟨h1, h2, h3, h4, h5, h6, h7⟩ := hmoved
    obtain ⟨hmode, g1, g2, g3, g4, g5⟩ := hold
    simp only [FastLockPc.tally, FastLockPc.change] at *
    cases hmode with
    | free ho hw hn hz => omega
    | handed ho hw hn =>
        refine ⟨.exclusive ?_ ?_ ?_, ?_, ?_, ?_, ?_, ?_⟩ <;>
          first | (dsimp only; omega) | omega
    | exclusive ho hw hn => omega
    | shared ho hw hn hz => omega
  · have hword := word_fastLockFields value
    obtain ⟨hlow, hhigh⟩ := hfit.word_range
    simp only [FastLockPc.change, FastLockFields.word, BitVec.toNat_add, BitVec.toNat_sub, toNat_phLockOwned, toNat_phLockExclusiveWaking] at *
    omega

theorem FastLockInv.takeShared
    (hcard : Fintype.card τ < 1024) (h : FastLockInv s) (hpc : s.pc t = .takeShared value) :
    FastLockNext s
      (s.compareExchange t (value + phLockOwned + phLockSharedOwnersInc) value .shared .acquireShared) t := by
  refine h.compareExchange hcard hpc rfl trivial ⟨rfl, rfl⟩ trivial
    ⟨fun hu => (by cases hu), fun hu => (by cases hu)⟩ (fun n x y hold hread hmoved => ?_) fun hfit => ?_
  · obtain ⟨hfree, hasleep, hfirst⟩ := hread
    obtain ⟨h1, h2, h3, h4, h5, h6, h7⟩ := hmoved
    obtain ⟨hmode, g1, g2, g3, g4, g5⟩ := hold
    simp only [FastLockPc.tally, FastLockPc.change] at *
    cases hmode with
    | free ho hw hn hz =>
        refine ⟨.shared ?_ ?_ ?_ ?_, ?_, ?_, ?_, ?_, ?_⟩ <;>
          first | (dsimp only; omega) | omega
    | handed ho hw hn => omega
    | exclusive ho hw hn => omega
    | shared ho hw hn hz => omega
  · have hword := word_fastLockFields value
    obtain ⟨hlow, hhigh⟩ := hfit.word_range
    simp only [FastLockPc.change, FastLockFields.word, BitVec.toNat_add, toNat_phLockOwned, toNat_phLockSharedOwnersInc] at *
    omega

theorem FastLockInv.joinShared
    (hcard : Fintype.card τ < 1024) (h : FastLockInv s) (hpc : s.pc t = .joinShared value) :
    FastLockNext s
      (s.compareExchange t (value + phLockSharedOwnersInc) value .shared .acquireShared) t := by
  refine h.compareExchange hcard hpc rfl trivial ⟨rfl, rfl⟩ trivial
    ⟨fun hu => (by cases hu), fun hu => (by cases hu)⟩ (fun n x y hold hread hmoved => ?_) fun hfit => ?_
  · obtain ⟨howned, howners, hasleep, hfirst⟩ := hread
    obtain ⟨h1, h2, h3, h4, h5, h6, h7⟩ := hmoved
    obtain ⟨hmode, g1, g2, g3, g4, g5⟩ := hold
    simp only [FastLockPc.tally, FastLockPc.change] at *
    cases hmode with
    | free ho hw hn hz => omega
    | handed ho hw hn => omega
    | exclusive ho hw hn => omega
    | shared ho hw hn hz =>
        refine ⟨.shared ?_ ?_ ?_ ?_, ?_, ?_, ?_, ?_, ?_⟩ <;>
          first | (dsimp only; omega) | omega
  · have hword := word_fastLockFields value
    obtain ⟨hlow, hhigh⟩ := hfit.word_range
    simp only [FastLockPc.change, FastLockFields.word, BitVec.toNat_add, toNat_phLockSharedOwnersInc] at *
    omega

theorem FastLockInv.queueShared
    (hcard : Fintype.card τ < 1024) (h : FastLockInv s) (hpc : s.pc t = .queueShared value) :
    FastLockNext s
      (s.compareExchange t (value + phLockSharedWaitersInc) value .waitShared .acquireShared) t := by
  refine h.compareExchange hcard hpc rfl trivial ⟨rfl, rfl⟩ trivial
    ⟨fun hu => (by cases hu), fun _ => rfl⟩ (fun n x y hold hread hmoved => ?_) fun hfit => ?_
  · obtain ⟨hnotFree, hnotOpen⟩ := hread
    obtain ⟨h1, h2, h3, h4, h5, h6, h7⟩ := hmoved
    obtain ⟨hmode, g1, g2, g3, g4, g5⟩ := hold
    simp only [FastLockPc.tally, FastLockPc.change] at *
    cases hmode with
    | free ho hw hn hz => exact absurd ⟨⟨ho, hw, hz.1⟩, by omega⟩ hnotFree
    | handed ho hw hn =>
        refine ⟨.handed ?_ ?_ ?_, ?_, ?_, ?_, ?_, ?_⟩ <;>
          first | (dsimp only; omega) | omega
    | exclusive ho hw hn =>
        refine ⟨.exclusive ?_ ?_ ?_, ?_, ?_, ?_, ?_, ?_⟩ <;>
          first | (dsimp only; omega) | omega
    | shared ho hw hn hz =>
        -- The lock is shared, and the value did not let the thread join.
        have hbehind : 0 < (fastLockFields value).exclusiveWaiters := by
          rcases Int.lt_or_eq_of_le g5.1 with hpos | hzero
          · exact hpos
          · exact absurd ⟨by omega, by omega, hw, hzero.symm⟩ hnotOpen
        refine ⟨.shared ?_ ?_ ?_ ?_, ?_, ?_, ?_, ?_, ?_⟩ <;>
          first | (dsimp only; omega) | omega
  · have hword := word_fastLockFields value
    obtain ⟨hlow, hhigh⟩ := hfit.word_range
    simp only [FastLockPc.change, FastLockFields.word, BitVec.toNat_add, toNat_phLockSharedWaitersInc] at *
    omega

theorem FastLockInv.tryTakeExclusive
    (hcard : Fintype.card τ < 1024) (h : FastLockInv s) (hpc : s.pc t = .tryTakeExclusive value) :
    FastLockNext s (s.compareExchange t (value + phLockOwned) value .exclusive .idle) t := by
  refine h.compareExchange hcard hpc rfl trivial ⟨rfl, rfl⟩ trivial
    ⟨fun hu => (by cases hu), fun hu => (by cases hu)⟩ (fun n x y hold hread hmoved => ?_) fun hfit => ?_
  · obtain ⟨hfree, hasleep⟩ := hread
    obtain ⟨h1, h2, h3, h4, h5, h6, h7⟩ := hmoved
    obtain ⟨hmode, g1, g2, g3, g4, g5⟩ := hold
    simp only [FastLockPc.tally, FastLockPc.change] at *
    cases hmode with
    | free ho hw hn hz =>
        refine ⟨.exclusive ?_ ?_ ?_, ?_, ?_, ?_, ?_, ?_⟩ <;>
          first | (dsimp only; omega) | omega
    | handed ho hw hn => omega
    | exclusive ho hw hn => omega
    | shared ho hw hn hz => omega
  · have hword := word_fastLockFields value
    obtain ⟨hlow, hhigh⟩ := hfit.word_range
    simp only [FastLockPc.change, FastLockFields.word, BitVec.toNat_add, toNat_phLockOwned] at *
    omega

theorem FastLockInv.tryTakeShared
    (hcard : Fintype.card τ < 1024) (h : FastLockInv s) (hpc : s.pc t = .tryTakeShared value) :
    FastLockNext s
      (s.compareExchange t (value + phLockOwned + phLockSharedOwnersInc) value .shared .idle) t := by
  refine h.compareExchange hcard hpc rfl trivial ⟨rfl, rfl⟩ trivial
    ⟨fun hu => (by cases hu), fun hu => (by cases hu)⟩ (fun n x y hold hread hmoved => ?_) fun hfit => ?_
  · obtain ⟨hfree, hasleep, hfirst⟩ := hread
    obtain ⟨h1, h2, h3, h4, h5, h6, h7⟩ := hmoved
    obtain ⟨hmode, g1, g2, g3, g4, g5⟩ := hold
    simp only [FastLockPc.tally, FastLockPc.change] at *
    cases hmode with
    | free ho hw hn hz =>
        refine ⟨.shared ?_ ?_ ?_ ?_, ?_, ?_, ?_, ?_, ?_⟩ <;>
          first | (dsimp only; omega) | omega
    | handed ho hw hn => omega
    | exclusive ho hw hn => omega
    | shared ho hw hn hz => omega
  · have hword := word_fastLockFields value
    obtain ⟨hlow, hhigh⟩ := hfit.word_range
    simp only [FastLockPc.change, FastLockFields.word, BitVec.toNat_add, toNat_phLockOwned, toNat_phLockSharedOwnersInc] at *
    omega

theorem FastLockInv.tryJoinShared
    (hcard : Fintype.card τ < 1024) (h : FastLockInv s) (hpc : s.pc t = .tryJoinShared value) :
    FastLockNext s (s.compareExchange t (value + phLockSharedOwnersInc) value .shared .idle) t := by
  refine h.compareExchange hcard hpc rfl trivial ⟨rfl, rfl⟩ trivial
    ⟨fun hu => (by cases hu), fun hu => (by cases hu)⟩ (fun n x y hold hread hmoved => ?_) fun hfit => ?_
  · obtain ⟨howned, howners, hasleep, hfirst⟩ := hread
    obtain ⟨h1, h2, h3, h4, h5, h6, h7⟩ := hmoved
    obtain ⟨hmode, g1, g2, g3, g4, g5⟩ := hold
    simp only [FastLockPc.tally, FastLockPc.change] at *
    cases hmode with
    | free ho hw hn hz => omega
    | handed ho hw hn => omega
    | exclusive ho hw hn => omega
    | shared ho hw hn hz =>
        refine ⟨.shared ?_ ?_ ?_ ?_, ?_, ?_, ?_, ?_, ?_⟩ <;>
          first | (dsimp only; omega) | omega
  · have hword := word_fastLockFields value
    obtain ⟨hlow, hhigh⟩ := hfit.word_range
    simp only [FastLockPc.change, FastLockFields.word, BitVec.toNat_add, toNat_phLockSharedOwnersInc] at *
    omega

/-! ## The releases -/

theorem FastLockInv.giveExclusive_hand
    (hcard : Fintype.card τ < 1024) (h : FastLockInv s) (hpc : s.pc t = .giveExclusive value)
    (hwaiters : (fastLockFields value).exclusiveWaiters ≠ 0) :
    FastLockNext s (s.compareExchange t
      (value - phLockOwned + phLockExclusiveWaking - phLockExclusiveWaitersInc) value
      .signalExclusive .releaseExclusive) t := by
  refine h.compareExchange hcard hpc rfl trivial ⟨rfl, rfl⟩ trivial
    ⟨fun hu => (by cases hu), fun hu => (by cases hu)⟩ (fun n x y hold hread hmoved => ?_)
    fun hfit => ?_
  · obtain ⟨h1, h2, h3, h4, h5, h6, h7⟩ := hmoved
    obtain ⟨hmode, g1, g2, g3, g4, g5⟩ := hold
    simp only [FastLockPc.tally, FastLockPc.change, if_pos hwaiters] at *
    cases hmode with
    | free ho hw hn hz => omega
    | handed ho hw hn => omega
    | exclusive ho hw hn =>
        refine ⟨.handed ?_ ?_ ?_, ?_, ?_, ?_, ?_, ?_⟩ <;> first | (dsimp only; omega) | omega
    | shared ho hw hn hz => omega
  · have hword := word_fastLockFields value
    obtain ⟨hlow, hhigh⟩ := hfit.word_range
    simp only [FastLockPc.change, if_pos hwaiters, FastLockFields.word] at *
    rw [BitVec.toNat_sub, BitVec.toNat_add, BitVec.toNat_sub, toNat_phLockExclusiveWaitersInc,
      toNat_phLockOwned, toNat_phLockExclusiveWaking]
    omega

theorem FastLockInv.giveExclusive_free
    (hcard : Fintype.card τ < 1024) (h : FastLockInv s) (hpc : s.pc t = .giveExclusive value)
    (hwaiters : (fastLockFields value).exclusiveWaiters = 0) :
    FastLockNext s (s.compareExchange t
      (value &&& ~~~(phLockOwned ||| (phLockSharedWaitersMask <<< phLockSharedWaitersShift))) value
      (if sharedWaitersOf value ≠ 0 then .signalShared (sharedWaitersOf value).toNat else .idle)
      .releaseExclusive) t := by
  have hnone : ¬(fastLockFields value).exclusiveWaiters ≠ 0 := fun hne => hne hwaiters
  have hsuccess : (if sharedWaitersOf value ≠ 0 then
      FastLockPc.signalShared (sharedWaitersOf value).toNat else .idle).tally =
      { sharedSignals := (sharedWaitersOf value).toNat } := by
    split
    · rfl
    · next hzero =>
      rw [not_not.mp hzero]
      rfl
  have hsignals := toNat_sharedWaitersOf value
  refine h.compareExchange hcard hpc rfl trivial ⟨rfl, rfl⟩ ?_ ?_ (fun n x y hold hread hmoved => ?_)
    fun hfit => ?_
  · split <;> trivial
  · split
    · exact ⟨fun hu => (by cases hu), fun hu => (by cases hu)⟩
    · exact ⟨fun hu => (by cases hu), fun hu => (by cases hu)⟩
  · rw [hsuccess] at hmoved
    obtain ⟨h1, h2, h3, h4, h5, h6, h7⟩ := hmoved
    obtain ⟨hmode, g1, g2, g3, g4, g5⟩ := hold
    simp only [FastLockPc.tally, FastLockPc.change, if_neg hnone] at *
    cases hmode with
    | free ho hw hn hz => omega
    | handed ho hw hn => omega
    | exclusive ho hw hn =>
        refine ⟨.free ?_ ?_ ?_ ?_, ?_, ?_, ?_, ?_, ?_⟩ <;> first | (dsimp only; omega) | omega
    | shared ho hw hn hz => omega
  · have hword := word_fastLockFields value
    have hclear := toNat_and_not_ownedWaiters value
    have hflag := (fastLockFields_fit value).owned
    obtain ⟨howned, -, -, -, -⟩ := hfit
    simp only [FastLockPc.change, if_neg hnone, FastLockFields.word] at *
    omega

theorem FastLockInv.giveShared_leave
    (hcard : Fintype.card τ < 1024) (h : FastLockInv s) (hpc : s.pc t = .giveShared value)
    (howners : (fastLockFields value).sharedOwners > 1) :
    FastLockNext s (s.compareExchange t (value - phLockSharedOwnersInc) value .idle .releaseShared)
      t := by
  refine h.compareExchange hcard hpc rfl trivial ⟨rfl, rfl⟩ trivial
    ⟨fun hu => (by cases hu), fun hu => (by cases hu)⟩ (fun n x y hold hread hmoved => ?_)
    fun hfit => ?_
  · obtain ⟨h1, h2, h3, h4, h5, h6, h7⟩ := hmoved
    obtain ⟨hmode, g1, g2, g3, g4, g5⟩ := hold
    simp only [FastLockPc.tally, FastLockPc.change, if_pos howners] at *
    cases hmode with
    | free ho hw hn hz => omega
    | handed ho hw hn => omega
    | exclusive ho hw hn => omega
    | shared ho hw hn hz =>
        refine ⟨.shared ?_ ?_ ?_ ?_, ?_, ?_, ?_, ?_, ?_⟩ <;> first | (dsimp only; omega) | omega
  · have hword := word_fastLockFields value
    obtain ⟨hlow, hhigh⟩ := hfit.word_range
    simp only [FastLockPc.change, if_pos howners, FastLockFields.word] at *
    rw [BitVec.toNat_sub, toNat_phLockSharedOwnersInc]
    omega

theorem FastLockInv.giveShared_hand
    (hcard : Fintype.card τ < 1024) (h : FastLockInv s) (hpc : s.pc t = .giveShared value)
    (howners : ¬(fastLockFields value).sharedOwners > 1)
    (hwaiters : (fastLockFields value).exclusiveWaiters ≠ 0) :
    FastLockNext s (s.compareExchange t
      (value - phLockOwned + phLockExclusiveWaking - phLockSharedOwnersInc -
        phLockExclusiveWaitersInc) value .signalExclusive .releaseShared) t := by
  refine h.compareExchange hcard hpc rfl trivial ⟨rfl, rfl⟩ trivial
    ⟨fun hu => (by cases hu), fun hu => (by cases hu)⟩ (fun n x y hold hread hmoved => ?_)
    fun hfit => ?_
  · obtain ⟨h1, h2, h3, h4, h5, h6, h7⟩ := hmoved
    obtain ⟨hmode, g1, g2, g3, g4, g5⟩ := hold
    simp only [FastLockPc.tally, FastLockPc.change, if_neg howners, if_pos hwaiters] at *
    cases hmode with
    | free ho hw hn hz => omega
    | handed ho hw hn => omega
    | exclusive ho hw hn => omega
    | shared ho hw hn hz =>
        refine ⟨.handed ?_ ?_ ?_, ?_, ?_, ?_, ?_, ?_⟩ <;> first | (dsimp only; omega) | omega
  · have hword := word_fastLockFields value
    obtain ⟨hlow, hhigh⟩ := hfit.word_range
    simp only [FastLockPc.change, if_neg howners, if_pos hwaiters, FastLockFields.word] at *
    rw [BitVec.toNat_sub, BitVec.toNat_sub, BitVec.toNat_add, BitVec.toNat_sub,
      toNat_phLockExclusiveWaitersInc, toNat_phLockOwned, toNat_phLockExclusiveWaking,
      toNat_phLockSharedOwnersInc]
    omega

theorem FastLockInv.giveShared_free
    (hcard : Fintype.card τ < 1024) (h : FastLockInv s) (hpc : s.pc t = .giveShared value)
    (howners : ¬(fastLockFields value).sharedOwners > 1)
    (hwaiters : (fastLockFields value).exclusiveWaiters = 0) :
    FastLockNext s (s.compareExchange t (value - phLockOwned - phLockSharedOwnersInc) value .idle
      .releaseShared) t := by
  have hnone : ¬(fastLockFields value).exclusiveWaiters ≠ 0 := fun hne => hne hwaiters
  refine h.compareExchange hcard hpc rfl trivial ⟨rfl, rfl⟩ trivial
    ⟨fun hu => (by cases hu), fun hu => (by cases hu)⟩ (fun n x y hold hread hmoved => ?_)
    fun hfit => ?_
  · obtain ⟨h1, h2, h3, h4, h5, h6, h7⟩ := hmoved
    obtain ⟨hmode, g1, g2, g3, g4, g5⟩ := hold
    simp only [FastLockPc.tally, FastLockPc.change, if_neg howners, if_neg hnone] at *
    cases hmode with
    | free ho hw hn hz => omega
    | handed ho hw hn => omega
    | exclusive ho hw hn => omega
    | shared ho hw hn hz =>
        refine ⟨.free ?_ ?_ ?_ ?_, ?_, ?_, ?_, ?_, ?_⟩ <;> first | (dsimp only; omega) | omega
  · have hword := word_fastLockFields value
    obtain ⟨hlow, hhigh⟩ := hfit.word_range
    simp only [FastLockPc.change, if_neg howners, if_neg hnone, FastLockFields.word] at *
    rw [BitVec.toNat_sub, BitVec.toNat_sub, toNat_phLockOwned, toNat_phLockSharedOwnersInc]
    omega

/-! ## The semaphores -/

theorem FastLockInv.ensureExclusive
    (h : FastLockInv s) (hpc : s.pc t = .ensureExclusive value) :
    FastLockNext s ({ s with exclusiveWakeEvent := some (s.exclusiveWakeEvent.getD 0) }.goto t
      (.queueExclusive value)) t := by
  have hread := h.read t
  rw [hpc] at hread
  have hcreated : FastLockInv { s with exclusiveWakeEvent := some (s.exclusiveWakeEvent.getD 0) } :=
    ⟨h.balance, fun u _ => Option.some_ne_none _, h.sharedEvent, h.read⟩
  have htally : (FastLockPc.queueExclusive value).tally = (s.pc t).tally := by
    rw [hpc]
    rfl
  obtain ⟨hinv, -⟩ : FastLockNext { s with exclusiveWakeEvent := some (s.exclusiveWakeEvent.getD 0) } _ t :=
    hcreated.goto htally hread (fun _ => Option.some_ne_none _)
    (fun hu => (by cases hu))
  exact ⟨hinv, .inl rfl⟩

theorem FastLockInv.ensureShared
    (h : FastLockInv s) (hpc : s.pc t = .ensureShared value) :
    FastLockNext s ({ s with sharedWakeEvent := some (s.sharedWakeEvent.getD 0) }.goto t
      (.queueShared value)) t := by
  have hread := h.read t
  rw [hpc] at hread
  have hcreated : FastLockInv { s with sharedWakeEvent := some (s.sharedWakeEvent.getD 0) } :=
    ⟨h.balance, h.exclusiveEvent, fun u _ => Option.some_ne_none _, h.read⟩
  have htally : (FastLockPc.queueShared value).tally = (s.pc t).tally := by
    rw [hpc]
    rfl
  obtain ⟨hinv, -⟩ : FastLockNext { s with sharedWakeEvent := some (s.sharedWakeEvent.getD 0) } _ t :=
    hcreated.goto htally hread (fun hu => (by cases hu))
    (fun _ => Option.some_ne_none _)
  exact ⟨hinv, .inl rfl⟩

theorem FastLockInv.semaphore {s s' : FastLockState τ}
    (h : FastLockInv s) (hpc : s'.pc = Function.update s.pc t pc) (hvalue : s'.value = s.value)
    (hexclusive : s'.exclusiveWakeEvent = none → s.exclusiveWakeEvent = none)
    (hshared : s'.sharedWakeEvent = none → s.sharedWakeEvent = none)
    (hread : pc.Read) (huses : pc.usesExclusive = false ∧ pc.usesShared = false)
    (howners : pc.tally.exclusiveOwners = (s.pc t).tally.exclusiveOwners ∧
      pc.tally.sharedOwners = (s.pc t).tally.sharedOwners)
    (hwaking : ∀ n, s.tally.Moved n (s.pc t).tally pc.tally →
      n.exclusiveSignals + s'.exclusiveWakeEvent.getD 0 + n.exclusiveClaims =
        s.tally.exclusiveSignals + s.exclusiveWakeEvent.getD 0 + s.tally.exclusiveClaims ∧
      n.exclusiveWaiters + s.tally.exclusiveSignals + s.exclusiveWakeEvent.getD 0 =
        s.tally.exclusiveWaiters + n.exclusiveSignals + s'.exclusiveWakeEvent.getD 0 ∧
      n.sharedWaiters + s.tally.sharedSignals + s.sharedWakeEvent.getD 0 =
        s.tally.sharedWaiters + n.sharedSignals + s'.sharedWakeEvent.getD 0) :
    FastLockNext s s' t := by
  refine ⟨h.step hpc hread hexclusive hshared (fun hu => (by rw [huses.1] at hu; cases hu))
    (fun hu => (by rw [huses.2] at hu; cases hu)) fun n hmoved => ?_, .inl (by rw [hvalue])⟩
  obtain ⟨hw1, hw2, hw3⟩ := hwaking n hmoved
  obtain ⟨h1, h2, -, -, -, -, -⟩ := hmoved
  obtain ⟨hmode, g1, g2, g3, g4, g5⟩ := h.balance
  rw [hvalue]
  rw [howners.1] at h1
  rw [howners.2] at h2
  have hexcl : n.exclusiveOwners = s.tally.exclusiveOwners := Nat.add_right_cancel h1
  have hshar : n.sharedOwners = s.tally.sharedOwners := Nat.add_right_cancel h2
  refine ⟨?_, by omega, by omega, by omega, by omega, g5⟩
  cases hmode with
  | free ho hw hn hz => exact .free ho hw (by omega) hz
  | handed ho hw hn => exact .handed ho hw (by omega)
  | exclusive ho hw hn => exact .exclusive ho hw (by omega)
  | shared ho hw hn hz => exact .shared ho hw (by omega) hz

theorem FastLockInv.wakeExclusive {count : Nat} (h : FastLockInv s)
    (hpc : s.pc t = .waitExclusive) (hcount : s.exclusiveWakeEvent = some (count + 1)) :
    FastLockNext s ({ s with exclusiveWakeEvent := some count }.goto t .wokenExclusive) t := by
  refine h.semaphore rfl rfl (fun hno => (by cases hno)) id trivial ⟨rfl, rfl⟩
    (by rw [hpc]; exact ⟨rfl, rfl⟩) fun n hmoved => ?_
  obtain ⟨-, -, h3, h4, h5, h6, h7⟩ := hpc ▸ hmoved
  simp only [FastLockPc.tally, hcount, Option.getD_some, FastLockState.goto] at *
  omega

theorem FastLockInv.wakeShared {count : Nat} (h : FastLockInv s)
    (hpc : s.pc t = .waitShared) (hcount : s.sharedWakeEvent = some (count + 1)) :
    FastLockNext s ({ s with sharedWakeEvent := some count }.goto t .acquireShared) t := by
  refine h.semaphore rfl rfl id (fun hno => (by cases hno)) trivial ⟨rfl, rfl⟩
    (by rw [hpc]; exact ⟨rfl, rfl⟩) fun n hmoved => ?_
  obtain ⟨-, -, h3, h4, h5, h6, h7⟩ := hpc ▸ hmoved
  simp only [FastLockPc.tally, hcount, Option.getD_some, FastLockState.goto] at *
  omega

theorem FastLockInv.exclusive_created (h : FastLockInv s)
    (hsignals : 0 < s.tally.exclusiveSignals) : ∃ count, s.exclusiveWakeEvent = some count := by
  have hwaiters : 0 < s.tally.exclusiveWaiters := by
    have hbalance := h.balance.exclusiveWaiters
    have hcounts := h.balance.counts
    omega
  obtain ⟨u, hu⟩ := Census.exists_of_total hwaiters
  refine Option.ne_none_iff_exists'.mp (h.exclusiveEvent u ?_)
  cases hpc : s.pc u <;> rw [hpc] at hu <;> first | rfl | cases hu

theorem FastLockInv.shared_created (h : FastLockInv s)
    (hsignals : 0 < s.tally.sharedSignals) : ∃ count, s.sharedWakeEvent = some count := by
  have hwaiters : 0 < s.tally.sharedWaiters := by
    have hbalance := h.balance.sharedWaiters
    have hcounts := h.balance.counts
    omega
  obtain ⟨u, hu⟩ := Census.exists_of_total hwaiters
  refine Option.ne_none_iff_exists'.mp (h.sharedEvent u ?_)
  cases hpc : s.pc u <;> rw [hpc] at hu <;> first | rfl | cases hu

theorem FastLockInv.signalExclusive (h : FastLockInv s)
    (hpc : s.pc t = .signalExclusive) :
    FastLockNext s ({ s with exclusiveWakeEvent := s.exclusiveWakeEvent.map (· + 1) }.goto t .idle)
      t := by
  have hone := Census.le_total (fun pc => FastLockTally.exclusiveSignals (FastLockPc.tally pc)) s.pc t
  rw [hpc] at hone
  obtain ⟨count, hcount⟩ := h.exclusive_created hone
  refine h.semaphore rfl rfl (fun hno => Option.map_eq_none_iff.mp hno) id trivial ⟨rfl, rfl⟩
    (by rw [hpc]; exact ⟨rfl, rfl⟩) fun n hmoved => ?_
  obtain ⟨-, -, h3, h4, h5, h6, h7⟩ := hpc ▸ hmoved
  simp only [FastLockPc.tally, hcount, Option.getD_some, Option.map_some, FastLockState.goto] at *
  omega

theorem FastLockInv.signalShared {count : Nat} (h : FastLockInv s)
    (hpc : s.pc t = .signalShared count) :
    FastLockNext s ({ s with sharedWakeEvent := s.sharedWakeEvent.map (· + count) }.goto t .idle)
      t := by
  have hsome := Census.le_total (fun pc => FastLockTally.sharedSignals (FastLockPc.tally pc)) s.pc t
  rw [hpc] at hsome
  refine h.semaphore rfl rfl id (fun hno => Option.map_eq_none_iff.mp hno) trivial ⟨rfl, rfl⟩
    (by rw [hpc]; exact ⟨rfl, rfl⟩) fun n hmoved => ?_
  obtain ⟨-, -, h3, h4, h5, h6, h7⟩ := hpc ▸ hmoved
  rcases Nat.eq_zero_or_pos count with rfl | hpos
  · have hsame : (s.sharedWakeEvent.map (· + 0)).getD 0 = s.sharedWakeEvent.getD 0 := by
      cases s.sharedWakeEvent <;> rfl
    simp only [FastLockPc.tally, hsame, FastLockState.goto] at *
    omega
  · obtain ⟨old, hold⟩ := h.shared_created (hpos.trans_le hsome)
    simp only [FastLockPc.tally, hold, Option.getD_some, Option.map_some, FastLockState.goto] at *
    omega

/-! ## Every step -/

theorem FastLockInv.stay (h : FastLockInv s) (t : τ) : FastLockNext s s t :=
  ⟨h, .inl rfl⟩

theorem FastLockInv.reads {old pc : FastLockPc} (h : FastLockInv s)
    (hpc : s.pc t = old) (htally : pc.tally = old.tally) (hread : pc.Read)
    (huses : pc.usesExclusive = false ∧ pc.usesShared = false) : FastLockNext s (s.goto t pc) t :=
  h.goto (htally.trans (by rw [hpc])) hread (fun hu => (by rw [huses.1] at hu; cases hu))
    (fun hu => (by rw [huses.2] at hu; cases hu))

theorem freeToOwn_iff (value : ULong) :
    value &&& (phLockOwned ||| phLockExclusiveWaking) = 0 ↔ (fastLockFields value).FreeToOwn :=
  (BitField.and_or_eq_zero value _ _).trans
    (and_congr (and_owned value) (and_exclusiveWaking value))

theorem freeToShare_iff (value : ULong) :
    value &&& (phLockOwned ||| (phLockSharedOwnersMask <<< phLockSharedOwnersShift) |||
      phLockExclusiveMask) = 0 ↔
      (fastLockFields value).FreeToShare ∧ (fastLockFields value).sharedOwners = 0 := by
  refine (BitField.and_or_eq_zero value _ _).trans ((and_congr (BitField.and_or_eq_zero value _ _)
    (and_exclusiveMask value)).trans ((and_congr (and_congr (and_owned value)
    (and_sharedOwners value)) Iff.rfl).trans ?_))
  exact ⟨fun h => ⟨⟨h.1.1, h.2⟩, h.1.2⟩, fun h => ⟨⟨h.1.1, h.2⟩, h.1.2⟩⟩

theorem openToShare_iff (value : ULong) :
    (value &&& phLockOwned ≠ 0 ∧ sharedOwnersOf value > 0 ∧ value &&& phLockExclusiveMask = 0) ↔
      (fastLockFields value).OpenToShare := by
  have howners : sharedOwnersOf value > 0 ↔ 0 < (fastLockFields value).sharedOwners := by
    rw [← toNat_sharedOwnersOf]
    exact BitVec.lt_def.trans Int.natCast_pos.symm
  rw [Ne, and_owned, howners, and_exclusiveMask]
  rfl

theorem exclusiveWaitersOf_ne (value : ULong) :
    exclusiveWaitersOf value ≠ 0 ↔ (fastLockFields value).exclusiveWaiters ≠ 0 := by
  rw [← toNat_exclusiveWaitersOf]
  refine not_congr ⟨fun h => by rw [h]; rfl, fun h => BitVec.eq_of_toNat_eq (Int.ofNat.inj h)⟩

theorem sharedOwnersOf_gt (value : ULong) :
    sharedOwnersOf value > 1 ↔ (fastLockFields value).sharedOwners > 1 := by
  rw [← toNat_sharedOwnersOf]
  exact BitVec.lt_def.trans Nat.one_lt_cast.symm

theorem sharedOwnersOf_pos (h : sharedOwnersOf value ≠ 0) :
    sharedOwnersOf value > 0 :=
  BitVec.lt_def.mpr (Nat.pos_of_ne_zero fun hzero => h (BitVec.eq_of_toNat_eq hzero))

theorem FastLockInv.advance (hcard : Fintype.card τ < 1024)
    (h : FastLockInv s) (t : τ) (spun : Bool) : FastLockNext s (s.advance t spun) t := by
  unfold FastLockState.advance
  cases hpc : s.pc t with
  | idle => exact h.stay t
  | exclusive => exact h.stay t
  | shared => exact h.stay t
  | acquireExclusive =>
      dsimp only
      split
      · next hfree => exact h.reads hpc rfl ((freeToOwn_iff _).mp hfree) ⟨rfl, rfl⟩
      · next hbusy =>
        split
        · exact h.reads hpc rfl (fun hfree => hbusy ((freeToOwn_iff _).mpr hfree)) ⟨rfl, rfl⟩
        · exact h.stay t
  | takeExclusive value => exact h.takeExclusive hcard hpc
  | ensureExclusive value => exact h.ensureExclusive hpc
  | queueExclusive value => exact h.queueExclusive hcard hpc
  | waitExclusive =>
      dsimp only
      split
      · next count hcount => exact h.wakeExclusive hpc hcount
      · exact h.stay t
  | wokenExclusive => exact h.reads hpc rfl trivial ⟨rfl, rfl⟩
  | claimExclusive value => exact h.claimExclusive hcard hpc
  | acquireShared =>
      dsimp only
      split
      · next hfree => exact h.reads hpc rfl ((freeToShare_iff _).mp hfree).1 ⟨rfl, rfl⟩
      · next hbusy =>
        split
        · next hopen => exact h.reads hpc rfl ((openToShare_iff _).mp hopen) ⟨rfl, rfl⟩
        · next hclosed =>
          split
          · exact h.reads hpc rfl ⟨fun hfree => hbusy ((freeToShare_iff _).mpr hfree),
              fun hopen => hclosed ((openToShare_iff _).mpr hopen)⟩ ⟨rfl, rfl⟩
          · exact h.stay t
  | takeShared value => exact h.takeShared hcard hpc
  | joinShared value => exact h.joinShared hcard hpc
  | ensureShared value => exact h.ensureShared hpc
  | queueShared value => exact h.queueShared hcard hpc
  | waitShared =>
      dsimp only
      split
      · next count hcount => exact h.wakeShared hpc hcount
      · exact h.stay t
  | releaseExclusive => exact h.reads hpc rfl trivial ⟨rfl, rfl⟩
  | giveExclusive value =>
      dsimp only
      split
      · next hwaiters =>
        exact h.giveExclusive_hand hcard hpc ((exclusiveWaitersOf_ne value).mp hwaiters)
      · next hnone =>
        exact h.giveExclusive_free hcard hpc
          (not_not.mp fun hne => hnone ((exclusiveWaitersOf_ne value).mpr hne))
  | releaseShared => exact h.reads hpc rfl trivial ⟨rfl, rfl⟩
  | giveShared value =>
      dsimp only
      split
      · next howners => exact h.giveShared_leave hcard hpc ((sharedOwnersOf_gt value).mp howners)
      · next hlast =>
        have hlast' := fun howners => hlast ((sharedOwnersOf_gt value).mpr howners)
        split
        · next hwaiters =>
          exact h.giveShared_hand hcard hpc hlast' ((exclusiveWaitersOf_ne value).mp hwaiters)
        · next hnone =>
          exact h.giveShared_free hcard hpc hlast'
            (not_not.mp fun hne => hnone ((exclusiveWaitersOf_ne value).mpr hne))
  | signalExclusive => exact h.signalExclusive hpc
  | signalShared count => exact h.signalShared hpc
  | tryExclusive =>
      dsimp only
      split
      · exact h.reads hpc rfl trivial ⟨rfl, rfl⟩
      · next hfree =>
        exact h.reads hpc rfl ((freeToOwn_iff _).mp (not_not.mp hfree)) ⟨rfl, rfl⟩
  | tryTakeExclusive value => exact h.tryTakeExclusive hcard hpc
  | tryShared =>
      dsimp only
      split
      · exact h.reads hpc rfl trivial ⟨rfl, rfl⟩
      · next hmask =>
        have hmask' := (and_exclusiveMask _).mp (not_not.mp hmask)
        split
        · next hfree => exact h.reads hpc rfl ⟨(and_owned _).mp hfree, hmask'⟩ ⟨rfl, rfl⟩
        · next howned =>
          split
          · next howners =>
            exact h.reads hpc rfl ((openToShare_iff _).mp ⟨howned, sharedOwnersOf_pos howners,
              not_not.mp hmask⟩) ⟨rfl, rfl⟩
          · exact h.reads hpc rfl trivial ⟨rfl, rfl⟩
  | tryTakeShared value => exact h.tryTakeShared hcard hpc
  | tryJoinShared value => exact h.tryJoinShared hcard hpc

theorem FastLockInv.call (h : FastLockInv s)
    (hcall : (s.pc t).calls pc) : FastLockNext s (s.goto t pc) t := by
  cases hpc : s.pc t with
  | idle =>
      rw [hpc] at hcall
      cases pc with
      | acquireExclusive => exact h.reads hpc rfl trivial ⟨rfl, rfl⟩
      | acquireShared => exact h.reads hpc rfl trivial ⟨rfl, rfl⟩
      | tryExclusive => exact h.reads hpc rfl trivial ⟨rfl, rfl⟩
      | tryShared => exact h.reads hpc rfl trivial ⟨rfl, rfl⟩
      | _ => exact hcall.elim
  | exclusive =>
      rw [hpc] at hcall
      cases pc with
      | releaseExclusive => exact h.reads hpc rfl trivial ⟨rfl, rfl⟩
      | _ => exact hcall.elim
  | shared =>
      rw [hpc] at hcall
      cases pc with
      | releaseShared => exact h.reads hpc rfl trivial ⟨rfl, rfl⟩
      | _ => exact hcall.elim
  | _ =>
      rw [hpc] at hcall
      cases pc <;> exact hcall.elim

theorem FastLockInv.start : FastLockInv (FastLockState.start (τ := τ)) := by
  have hzero : ∀ weight : FastLockPc → Nat, weight .idle = 0 →
      Census.total weight (FastLockState.start (τ := τ)).pc = 0 :=
    fun weight hidle => Census.total_eq_zero fun _ => hidle
  have htally : (FastLockState.start (τ := τ)).tally = {} := by
    rw [FastLockTally.mk.injEq]
    exact ⟨hzero (fun pc => pc.tally.exclusiveOwners) rfl,
      hzero (fun pc => pc.tally.sharedOwners) rfl,
      hzero (fun pc => pc.tally.exclusiveClaims) rfl,
      hzero (fun pc => pc.tally.exclusiveWaiters) rfl,
      hzero (fun pc => pc.tally.exclusiveSignals) rfl,
      hzero (fun pc => pc.tally.sharedWaiters) rfl,
      hzero (fun pc => pc.tally.sharedSignals) rfl⟩
  refine ⟨?_, fun t ht => (by cases ht), fun t ht => (by cases ht), fun t => trivial⟩
  rw [htally]
  show FastLockBalance (fastLockFields 0) {} 0 0
  exact ⟨.free rfl rfl ⟨rfl, rfl⟩ ⟨rfl, rfl⟩, rfl, rfl, rfl, rfl, by decide⟩

theorem FastLockStep.next {s s' : FastLockState τ} (hcard : Fintype.card τ < 1024)
    (h : FastLockInv s) (hstep : FastLockStep s s') : ∃ t, FastLockNext s s' t := by
  cases hstep with
  | advance t spun => exact ⟨t, h.advance hcard t spun⟩
  | call t pc hcall => exact ⟨t, h.call hcall⟩

theorem FastLockInv.run (hcard : Fintype.card τ < 1024)
    (hrun : Relation.ReflTransGen FastLockStep FastLockState.start s) : FastLockInv s := by
  induction hrun with
  | refl => exact FastLockInv.start
  | tail _ hstep ih =>
      obtain ⟨t, hnext⟩ := hstep.next hcard ih
      exact hnext.inv

/-! ## What holds in every reachable state -/

theorem FastLockInv.alone (h : FastLockInv s) {t u : τ}
    (ht : (s.pc t).tally.exclusiveOwners = 1) (hu : u ≠ t) :
    (s.pc u).tally.exclusiveOwners = 0 ∧ (s.pc u).tally.sharedOwners = 0 := by
  have htotal := Census.add_le_total (fun pc => FastLockTally.exclusiveOwners (FastLockPc.tally pc))
    s.pc hu
  have hshared := Census.le_total (fun pc => FastLockTally.sharedOwners (FastLockPc.tally pc)) s.pc u
  have hexclusive : s.tally.exclusiveOwners ≤ 1 ∧
      (s.tally.exclusiveOwners = 1 → s.tally.sharedOwners = 0) := by
    cases h.balance.mode with
    | free ho hw hn hz => omega
    | handed ho hw hn => omega
    | exclusive ho hw hn => omega
    | shared ho hw hn hz => omega
  have hle : (s.pc t).tally.exclusiveOwners + (s.pc u).tally.exclusiveOwners ≤
      s.tally.exclusiveOwners := htotal
  have hle' : (s.pc u).tally.sharedOwners ≤ s.tally.sharedOwners := hshared
  omega

/-- The exclusive waiters that were taken off the count and have not claimed the lock. -/
def FastLockState.taken (s : FastLockState τ) : Int :=
  s.tally.exclusiveWaiters + s.tally.exclusiveClaims - (fastLockFields s.value).exclusiveWaiters

/-- The lock is a reader/writer lock, and strands nobody. -/
structure FastLockCorrect (s : FastLockState τ) : Prop where
  alone : ∀ t u, (s.pc t).tally.exclusiveOwners = 1 → u ≠ t →
    (s.pc u).tally.exclusiveOwners = 0 ∧ (s.pc u).tally.sharedOwners = 0
  sharedOwners : (fastLockFields s.value).sharedOwners = s.tally.sharedOwners
  noCarry : ∀ s', FastLockStep s s' → fastLockFields s'.value = fastLockFields s.value ∨
    ∃ t, fastLockFields s'.value = (s.pc t).change (fastLockFields s.value)
  waking : (fastLockFields s.value).exclusiveWaking = 1 ↔ s.taken = 1
  exclusiveWaiters : s.exclusiveWakeEvent.getD 0 + (fastLockFields s.value).exclusiveWaiters +
    s.tally.exclusiveSignals = s.tally.exclusiveWaiters
  sharedWaiters : s.sharedWakeEvent.getD 0 + (fastLockFields s.value).sharedWaiters +
    s.tally.sharedSignals = s.tally.sharedWaiters
  nobody : (fastLockFields s.value).owned = 0 → (fastLockFields s.value).exclusiveWaking = 0 →
    (fastLockFields s.value).exclusiveWaiters = 0 ∧ (fastLockFields s.value).sharedWaiters = 0

theorem fastLock_correct {s : FastLockState τ} (hcard : Fintype.card τ < 1024)
    (hrun : Relation.ReflTransGen FastLockStep FastLockState.start s) : FastLockCorrect s := by
  have h := FastLockInv.run hcard hrun
  refine ⟨fun t u ht hu => h.alone ht hu, h.balance.sharedOwners, fun s' hstep => ?_, ?_,
    h.balance.exclusiveWaiters, h.balance.sharedWaiters, fun howned hwaking => ?_⟩
  · obtain ⟨t, hnext⟩ := hstep.next hcard h
    rcases hnext.fields with hsame | hchange
    · exact .inl hsame
    · exact .inr ⟨t, hchange⟩
  · have hwaking := h.balance.waking
    have hwaiters := h.balance.exclusiveWaiters
    rw [FastLockState.taken]
    omega
  · cases h.balance.mode with
    | free ho hw hn hz => exact hz
    | handed ho hw hn => omega
    | exclusive ho hw hn => omega
    | shared ho hw hn hz => omega

/-! ## Where no thread can go on -/

theorem FastLockState.pc_compareExchange (s : FastLockState τ) (t : τ)
    (newValue value : ULong) (success failure : FastLockPc) :
    (s.compareExchange t newValue value success failure).pc t =
      if s.value = value then success else failure := by
  rw [compareExchange]
  split <;> exact Function.update_self ..

theorem FastLockState.rests (h : s.advance t true = s) : s.pc t = .idle ∨
    (s.pc t = .exclusive ∨ s.pc t = .shared) ∨
    (s.pc t = .waitExclusive ∧ s.exclusiveWakeEvent.getD 0 = 0) ∨
    (s.pc t = .waitShared ∧ s.sharedWakeEvent.getD 0 = 0) := by
  have hmoved : (s.advance t true).pc t = s.pc t := by rw [h]
  have hgoto : ∀ (s' : FastLockState τ) pc, (s'.goto t pc).pc t = pc :=
    fun s' pc => Function.update_self ..
  rw [advance] at hmoved
  cases hpc : s.pc t with
  | idle => simp
  | exclusive => simp
  | shared => simp
  | waitExclusive =>
      cases hevent : s.exclusiveWakeEvent with
      | none => simp
      | some count => cases count <;> simp [hpc, hevent, hgoto] at hmoved ⊢
  | waitShared =>
      cases hevent : s.sharedWakeEvent with
      | none => simp
      | some count => cases count <;> simp [hpc, hevent, hgoto] at hmoved ⊢
  | _ =>
      simp only [hpc, ↓reduceIte] at hmoved
      repeat' split at hmoved
      all_goals simp only [hgoto, pc_compareExchange] at hmoved
      all_goals first | cases hmoved | (split at hmoved <;> cases hmoved)

/-- All who use the lock wait on it, and no signal is there. -/
def FastLockState.Quiet (s : FastLockState τ) : Prop := ∀ t, s.pc t = .idle ∨
  (s.pc t = .waitExclusive ∧ s.exclusiveWakeEvent.getD 0 = 0) ∨
  (s.pc t = .waitShared ∧ s.sharedWakeEvent.getD 0 = 0)

theorem FastLockState.Quiet.total (h : s.Quiet) {weight : FastLockTally → Nat}
    (hidle : weight {} = 0) (hexclusive : weight { exclusiveWaiters := 1 } = 0)
    (hshared : weight { sharedWaiters := 1 } = 0) :
    Census.total (fun pc : FastLockPc => weight pc.tally) s.pc = 0 := by
  refine Census.total_eq_zero fun t => ?_
  rcases h t with hpc | ⟨hpc, -⟩ | ⟨hpc, -⟩ <;> rw [hpc]
  exacts [hidle, hexclusive, hshared]

theorem FastLockState.Quiet.exclusive (h : s.Quiet) (hpos : 0 < s.tally.exclusiveWaiters) :
    s.exclusiveWakeEvent.getD 0 = 0 := by
  obtain ⟨t, ht⟩ := Census.exists_of_total hpos
  rcases h t with hpc | ⟨-, hevent⟩ | ⟨hpc, -⟩
  · exact absurd ht (by rw [hpc]; decide)
  · exact hevent
  · exact absurd ht (by rw [hpc]; decide)

theorem FastLockState.Quiet.shared (h : s.Quiet) (hpos : 0 < s.tally.sharedWaiters) :
    s.sharedWakeEvent.getD 0 = 0 := by
  obtain ⟨t, ht⟩ := Census.exists_of_total hpos
  rcases h t with hpc | ⟨hpc, -⟩ | ⟨-, hevent⟩
  · exact absurd ht (by rw [hpc]; decide)
  · exact absurd ht (by rw [hpc]; decide)
  · exact hevent

/-- A waiter that the word counts would have a signal on the way, or an owner before it. -/
theorem FastLockState.Quiet.free (h : s.Quiet) (hinv : FastLockInv s) :
    s.value.toNat = 0 ∧ s.tally.exclusiveWaiters = 0 ∧ s.tally.sharedWaiters = 0 := by
  have hexclusive := h.exclusive
  have hshared := h.shared
  have howners : s.tally.exclusiveOwners = 0 := h.total rfl rfl rfl
  have howners' : s.tally.sharedOwners = 0 := h.total rfl rfl rfl
  have hclaims : s.tally.exclusiveClaims = 0 := h.total rfl rfl rfl
  have hsignals : s.tally.exclusiveSignals = 0 := h.total rfl rfl rfl
  have hsignals' : s.tally.sharedSignals = 0 := h.total rfl rfl rfl
  obtain ⟨hmode, hso, hwaking, hew, hsw, hcounts⟩ := hinv.balance
  have hword := word_fastLockFields s.value
  rw [FastLockFields.word] at hword
  cases hmode with
  | free ho hw hn hz => omega
  | handed ho hw hn => omega
  | exclusive ho hw hn => omega
  | shared ho hw hn hz => omega

/-- If no thread can go on of itself, somebody owns the lock, or nobody uses it. -/
theorem fastLock_quiet (hcard : Fintype.card τ < 1024)
    (hrun : Relation.ReflTransGen FastLockStep FastLockState.start s)
    (hstuck : ∀ t, s.advance t true = s) :
    (∃ t, s.pc t = .exclusive ∨ s.pc t = .shared) ∨ s.value = 0 ∧ ∀ t, s.pc t = .idle := by
  by_cases howner : ∃ t, s.pc t = .exclusive ∨ s.pc t = .shared
  · exact .inl howner
  have hquiet : s.Quiet := fun t => (FastLockState.rests (hstuck t)).imp_right fun h =>
    h.resolve_left fun ht => howner ⟨t, ht⟩
  obtain ⟨hvalue, hexclusive, hshared⟩ := hquiet.free (FastLockInv.run hcard hrun)
  refine .inr ⟨BitVec.eq_of_toNat_eq hvalue, fun t => ?_⟩
  rcases hquiet t with hpc | ⟨hpc, -⟩ | ⟨hpc, -⟩
  · exact hpc
  · have hzero := Census.eq_zero_of_total hexclusive t
    rw [hpc] at hzero
    cases hzero
  · have hzero := Census.eq_zero_of_total hshared t
    rw [hpc] at hzero
    cases hzero

end

section

local instance fastLockThreads : NeZero 2 := ⟨by decide⟩

/-- One thread owns the lock and another waits; the owner has handed the lock over and not
signalled yet. -/
def fastLockHandedOver : FastLockState (Fin 2) :=
  let owner := (fun s => s.advance 0 true)^[2] (FastLockState.start.goto 0 .acquireExclusive)
  let waiting := (fun s => s.advance 1 true)^[3] (owner.goto 1 .acquireExclusive)
  (fun s => s.advance 0 true)^[2] (waiting.goto 0 .releaseExclusive)

/-- One thread owns the lock, and the other one waits. -/
def fastLockWaiting : FastLockState (Fin 2) :=
  let owner := (fun s => s.advance 0 true)^[2] (FastLockState.start.goto 0 .acquireExclusive)
  (fun s => s.advance 1 true)^[3] (owner.goto 1 .acquireExclusive)

end

theorem fastLockHandedOver_run :
    Relation.ReflTransGen FastLockStep FastLockState.start fastLockHandedOver := by
  have goOn := fun (t : Fin 2) => Runs.iterate_run fun s => FastLockStep.advance t true (s := s)
  refine .head (.call 0 .acquireExclusive trivial) (.trans (goOn 0 2 _)
    (.head (.call 1 .acquireExclusive trivial) (.trans (goOn 1 3 _)
    (.head (.call 0 .releaseExclusive ?_) (goOn 0 2 _)))))
  exact trivial

theorem fastLock_correct_handedOver : Fintype.card (Fin 2) < 1024 ∧
    (fastLockFields fastLockHandedOver.value).exclusiveWaking = 1 ∧
    FastLockCorrect fastLockHandedOver :=
  ⟨by decide, by decide, fastLock_correct (by decide) fastLockHandedOver_run⟩

/-- The waiter is off the count, and its semaphore has no signal for it yet. -/
theorem fastLock_signal_owed : ∃ s : FastLockState (Fin 2),
    Relation.ReflTransGen FastLockStep FastLockState.start s ∧
      s.exclusiveWakeEvent.getD 0 + (fastLockFields s.value).exclusiveWaiters ≠
        s.tally.exclusiveWaiters :=
  ⟨fastLockHandedOver, fastLockHandedOver_run, by decide⟩

theorem fastLock_quiet_waiting : fastLockWaiting.pc 1 = .waitExclusive ∧
    (∀ t, fastLockWaiting.advance t true = fastLockWaiting) ∧
    ((∃ t, fastLockWaiting.pc t = .exclusive ∨ fastLockWaiting.pc t = .shared) ∨
      fastLockWaiting.value = 0 ∧ ∀ t, fastLockWaiting.pc t = .idle) := by
  have goOn := fun (t : Fin 2) => Runs.iterate_run fun s => FastLockStep.advance t true (s := s)
  have hstuck : ∀ t, fastLockWaiting.advance t true = fastLockWaiting := by
    intro t
    fin_cases t <;> rfl
  exact ⟨rfl, hstuck, fastLock_quiet (by decide) (.head (.call 0 .acquireExclusive trivial)
    (.trans (goOn 0 2 _) (.head (.call 1 .acquireExclusive trivial) (goOn 1 3 _)))) hstuck⟩

end SystemInformer.PhLib
