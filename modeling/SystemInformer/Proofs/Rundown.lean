import SystemInformer.PhLib.Rundown
import SystemInformer.Lib.BitField
import SystemInformer.Lib.Census
import SystemInformer.Lib.Runs

/-!
# Rundown protection protects

The references are the users that hold one, and one number counts them at any time. While
no block is installed it is the word, which is even. The compare-exchange that installs the
block compares the word with the value that was saved in the block, so the block starts with
the number that the word had, whatever happened between the read and the exchange. The word
is odd from then on, and a user compares it only with an even value: every acquire and every
release that was about to change the word fails, and the releases go to the block.

The last of them takes the count to zero and is the only one that sets the event, and the
waiter returns only then. While the word can count no more than `2 ^ 63 - 1` references,
more users than that make it start from zero again.
-/

set_option linter.unusedSectionVars false

namespace SystemInformer.PhLib

/-- The user has a reference. -/
def RundownPc.holds : RundownPc → Nat
  | .held => 1
  | .release => 1
  | .releaseExchange _ => 1
  | .releaseSlow => 1
  | .releaseSlowExchange _ => 1
  | .decrement _ => 1
  | _ => 0

def RundownPc.decrements : RundownPc → Nat
  | .decrement _ => 1
  | _ => 0

def RundownPc.sets : RundownPc → Nat
  | .setEvent => 1
  | _ => 0

def RundownPc.Read (waitBlock : WaitBlock) : RundownPc → Prop
  | .acquireExchange value => value.toNat % 2 = 0
  | .acquireSlowExchange value => value.toNat % 2 = 0
  | .releaseExchange value => value.toNat % 2 = 0
  | .releaseSlowExchange value => value.toNat % 2 = 0
  | .decrement block => block = waitBlock.address
  | _ => True

/-- What the waiter has prepared before the block is installed. -/
def RundownWaiter.Prepared (count : ULongPtr) (wakeEvent : Option Bool) : RundownWaiter → Prop
  | .saveCount value => value >>> phRundownRefShift ≠ 0 → wakeEvent ≠ none
  | .install value =>
      count = value >>> phRundownRefShift ∧
        (value >>> phRundownRefShift ≠ 0 → wakeEvent ≠ none)
  | .waitEvent => False
  | .returned => False
  | _ => True

/-! ## The word -/

theorem WaitBlock.toNat_address (waitBlock : WaitBlock) : waitBlock.address.toNat % 2 = 0 := by
  have h := (BitField.and_mask_eq_zero (k := 0) (w := 1) (by decide) waitBlock.address).mp
    waitBlock.aligned
  rw [BitField.field] at h
  omega

theorem WaitBlock.toNat_installed (waitBlock : WaitBlock) :
    (waitBlock.address ||| phRundownActive).toNat = waitBlock.address.toNat + 1 :=
  TaggedWord.toNat_or_of_and_eq_zero waitBlock.aligned

theorem active_iff (value : ULongPtr) : value &&& phRundownActive = 0 ↔ value.toNat % 2 = 0 := by
  refine (BitField.and_mask_eq_zero (k := 0) (w := 1) (by decide) value).trans ?_
  rw [BitField.field]
  omega

theorem toNat_and_not_active (value : ULongPtr) :
    (value &&& ~~~phRundownActive).toNat = value.toNat - value.toNat % 2 := by
  have h := BitField.toNat_and_not_mask (k := 0) (w := 1) (by decide) value
  have hmask : BitField.mask 64 0 1 = phRundownActive := rfl
  rw [hmask, BitField.field] at h
  omega

theorem WaitBlock.installed_clear (waitBlock : WaitBlock) :
    (waitBlock.address ||| phRundownActive) &&& ~~~phRundownActive = waitBlock.address := by
  refine BitVec.eq_of_toNat_eq ?_
  have hinstalled := waitBlock.toNat_installed
  have haddress := waitBlock.toNat_address
  rw [toNat_and_not_active, hinstalled]
  omega

theorem WaitBlock.installed_ne_active (waitBlock : WaitBlock) :
    phRundownActive ≠ waitBlock.address ||| phRundownActive := by
  intro h
  have hnat := congrArg BitVec.toNat h
  rw [waitBlock.toNat_installed] at hnat
  have hone : phRundownActive.toNat = 1 := rfl
  exact waitBlock.notNull (BitVec.eq_of_toNat_eq (by rw [hone] at hnat; show _ = 0; omega))

theorem toNat_refCount (value : ULongPtr) :
    (value >>> phRundownRefShift).toNat = value.toNat / 2 := by
  rw [BitVec.toNat_ushiftRight, Nat.shiftRight_eq_div_pow]
  rfl

theorem toNat_add_ref {value : ULongPtr} (h : value.toNat + 2 < 2 ^ 64) :
    (value + phRundownRefInc).toNat = value.toNat + 2 := by
  have hinc : phRundownRefInc.toNat = 2 := rfl
  rw [BitVec.toNat_add, hinc, Nat.mod_eq_of_lt h]

theorem toNat_sub_ref {value : ULongPtr} (h : 2 ≤ value.toNat) :
    (value - phRundownRefInc).toNat = value.toNat - 2 := BitVec.toNat_sub_of_le h

section

variable {τ : Type} [Fintype τ] [DecidableEq τ]

namespace RundownState

def holders (s : RundownState τ) : Nat := Census.total RundownPc.holds s.pc

def decrementers (s : RundownState τ) : Nat := Census.total RundownPc.decrements s.pc

def setters (s : RundownState τ) : Nat := Census.total RundownPc.sets s.pc

end RundownState

/-- The phases of a rundown, each with the number that counts the references. -/
inductive RundownPhase (waitBlock : WaitBlock) (s : RundownState τ) : Prop where
  | giving (hvalue : s.value.toNat = 2 * s.holders)
      (hwaiter : s.waiter.Prepared s.count s.wakeEvent) (hevent : s.wakeEvent ≠ some true)
      (hdecrementers : s.decrementers = 0) (hsetters : s.setters = 0)
  | waiting (hvalue : s.value = waitBlock.address ||| phRundownActive)
      (hcount : s.count.toNat = s.holders) (hwaiter : s.waiter = .waitEvent) (set : Bool)
      (hevent : s.wakeEvent = some set)
      (hset : s.setters + set.toNat = if s.holders = 0 then 1 else 0)
  | finished (hvalue : s.value = phRundownActive ∨
        (s.value = waitBlock.address ||| phRundownActive ∧ s.count.toNat = 0))
      (hholders : s.holders = 0) (hsetters : s.setters = 0) (hwaiter : s.waiter = .returned)

structure RundownInv (waitBlock : WaitBlock) (s : RundownState τ) : Prop where
  phase : RundownPhase waitBlock s
  read : ∀ t, (s.pc t).Read waitBlock
  strayed : s.strayed = false

variable {waitBlock : WaitBlock}

variable {s : RundownState τ} {t : τ}

theorem RundownInv.read_update {pc : RundownPc}
    (h : RundownInv waitBlock s) (hread : pc.Read waitBlock) (u : τ) :
    (Function.update s.pc t pc u).Read waitBlock := by
  by_cases hu : u = t
  · rw [hu, Function.update_self]
    exact hread
  · rw [Function.update_of_ne hu]
    exact h.read u

theorem RundownState.moved {s r : RundownState τ} {pc : RundownPc}
    (hpc : r.pc = Function.update s.pc t pc) :
    r.holders + (s.pc t).holds = s.holders + pc.holds ∧
      r.decrementers + (s.pc t).decrements = s.decrementers + pc.decrements ∧
      r.setters + (s.pc t).sets = s.setters + pc.sets := by
  have hmoved := fun weight : RundownPc → Nat => Census.total_update weight s.pc t pc
  rw [← hpc] at hmoved
  exact ⟨hmoved RundownPc.holds, hmoved RundownPc.decrements, hmoved RundownPc.sets⟩

theorem RundownState.holders_le (s : RundownState τ) : s.holders ≤ Fintype.card τ := by
  refine Census.total_le_card (fun pc => ?_) s.pc
  cases pc <;> simp [RundownPc.holds]

theorem RundownState.one_le_holders (h : (s.pc t).holds = 1) :
    1 ≤ s.holders := by
  have hle := Census.le_total RundownPc.holds s.pc t
  rw [h] at hle
  exact hle

theorem RundownInv.goto {old pc : RundownPc}
    (h : RundownInv waitBlock s) (hpc : s.pc t = old) (hholds : pc.holds = old.holds)
    (hdecrements : pc.decrements = old.decrements) (hsets : pc.sets = old.sets)
    (hread : pc.Read waitBlock) : RundownInv waitBlock (s.goto t pc) := by
  obtain ⟨h1, h2, h3⟩ := RundownState.moved (s := s) (r := s.goto t pc) rfl
  rw [hpc, hholds] at h1
  rw [hpc, hdecrements] at h2
  rw [hpc, hsets] at h3
  have hholders := Nat.add_right_cancel h1
  have hdecrementers := Nat.add_right_cancel h2
  have hsetters := Nat.add_right_cancel h3
  refine ⟨?_, h.read_update hread, h.strayed⟩
  cases h.phase with
  | giving hvalue hwaiter hevent hd hs =>
      exact .giving (by rw [hholders]; exact hvalue) hwaiter hevent (hdecrementers.trans hd)
        (hsetters.trans hs)
  | waiting hvalue hcount hwaiter set hevent hset =>
      exact .waiting hvalue (by rw [hholders]; exact hcount) hwaiter set hevent
        (by rw [hholders, hsetters]; exact hset)
  | finished hvalue hh hs hwaiter =>
      exact .finished hvalue (hholders.trans hh) (hsetters.trans hs) hwaiter

theorem RundownInv.giving_of_even (h : RundownInv waitBlock s)
    (heven : s.value.toNat % 2 = 0) : s.value.toNat = 2 * s.holders ∧
      s.waiter.Prepared s.count s.wakeEvent ∧ s.wakeEvent ≠ some true ∧ s.decrementers = 0 ∧
      s.setters = 0 := by
  cases h.phase with
  | giving hvalue hwaiter hevent hd hs => exact ⟨hvalue, hwaiter, hevent, hd, hs⟩
  | waiting hvalue hcount hwaiter set hevent hset =>
      have hinstalled := waitBlock.toNat_installed
      have haddress := waitBlock.toNat_address
      rw [← hvalue] at hinstalled
      omega
  | finished hvalue hh hs hwaiter =>
      rcases hvalue with hactive | ⟨hinstalled, -⟩
      · rw [hactive] at heven
        cases heven
      · rw [hinstalled, waitBlock.toNat_installed] at heven
        have haddress := waitBlock.toNat_address
        omega

theorem RundownInv.acquireExchange {pc : RundownPc}
    {value : ULongPtr} (hcard : Fintype.card τ < 2 ^ 63) (h : RundownInv waitBlock s)
    (hpc : s.pc t = pc) (hold : pc.holds = 0 ∧ pc.decrements = 0 ∧ pc.sets = 0)
    (heven : value.toNat % 2 = 0) :
    RundownInv waitBlock
      (s.compareExchange t (value + phRundownRefInc) value .held .acquireSlow) := by
  unfold RundownState.compareExchange
  split
  · next heq =>
    subst heq
    obtain ⟨hvalue, hwaiter, hevent, hd, hs⟩ := h.giving_of_even heven
    obtain ⟨h1, h2, h3⟩ := RundownState.moved (s := s)
      (r := { s with value := s.value + phRundownRefInc }.goto t .held) rfl
    rw [hpc, hold.1] at h1
    rw [hpc, hold.2.1] at h2
    rw [hpc, hold.2.2] at h3
    simp only [RundownPc.holds, RundownPc.decrements, RundownPc.sets] at h1 h2 h3
    have hle := RundownState.holders_le ({ s with value := s.value + phRundownRefInc }.goto t .held)
    refine ⟨.giving ?_ hwaiter hevent (by omega) (by omega), h.read_update trivial, h.strayed⟩
    exact (toNat_add_ref (by omega)).trans (by omega)
  · exact h.goto hpc hold.1.symm hold.2.1.symm hold.2.2.symm trivial

theorem RundownInv.releaseExchange {pc : RundownPc}
    {value : ULongPtr} (h : RundownInv waitBlock s)
    (hpc : s.pc t = pc) (hold : pc.holds = 1 ∧ pc.decrements = 0 ∧ pc.sets = 0)
    (heven : value.toNat % 2 = 0) :
    RundownInv waitBlock
      (s.compareExchange t (value - phRundownRefInc) value .idle .releaseSlow) := by
  unfold RundownState.compareExchange
  split
  · next heq =>
    subst heq
    obtain ⟨hvalue, hwaiter, hevent, hd, hs⟩ := h.giving_of_even heven
    have hone := RundownState.one_le_holders (s := s) (t := t) (by rw [hpc]; exact hold.1)
    obtain ⟨h1, h2, h3⟩ := RundownState.moved (s := s)
      (r := { s with value := s.value - phRundownRefInc }.goto t .idle) rfl
    rw [hpc, hold.1] at h1
    rw [hpc, hold.2.1] at h2
    rw [hpc, hold.2.2] at h3
    simp only [RundownPc.holds, RundownPc.decrements, RundownPc.sets] at h1 h2 h3
    refine ⟨.giving ?_ hwaiter hevent (by omega) (by omega), h.read_update trivial, h.strayed⟩
    exact (toNat_sub_ref (by omega)).trans (by omega)
  · exact h.goto hpc hold.1.symm hold.2.1.symm hold.2.2.symm trivial

/-- A release takes its reference off the block, and goes on to set the event if it was the
last one. -/
theorem RundownInv.decrement {block : ULongPtr} {pc : RundownPc}
    (h : RundownInv waitBlock s) (hpc : s.pc t = .decrement block)
    (hholds : pc.holds = 0) (hsets : pc.sets = if s.count - 1 = 0 then 1 else 0)
    (hread : pc.Read waitBlock) :
    RundownInv waitBlock ({ s with count := s.count - 1 }.goto t pc) := by
  have hone := RundownState.one_le_holders (s := s) (t := t) (by rw [hpc]; rfl)
  have hdec := Census.le_total RundownPc.decrements s.pc t
  rw [hpc] at hdec
  have hdec' : 1 ≤ s.decrementers := hdec
  cases h.phase with
  | giving hvalue hwaiter hevent hd hs => omega
  | waiting hvalue hcount hwaiter set hevent hset =>
      obtain ⟨h1, -, h3⟩ := RundownState.moved (s := s)
        (r := { s with count := s.count - 1 }.goto t pc) rfl
      have hsub : (s.count - 1).toNat = s.holders - 1 := by
        rw [← hcount] at hone ⊢
        exact BitVec.toNat_sub_of_le hone
      have hlast : s.count - 1 = 0 ↔ s.holders = 1 := by
        refine ⟨fun hz => ?_, fun hz => BitVec.eq_of_toNat_eq ?_⟩
        · rw [hz] at hsub
          have hzero : (0 : ULongPtr).toNat = 0 := rfl
          omega
        · rw [hsub, hz]
          rfl
      rw [hpc, hholds] at h1
      rw [hpc, hsets] at h3
      simp only [RundownPc.holds, RundownPc.sets] at h1 h3
      rw [if_neg (by omega)] at hset
      refine ⟨.waiting hvalue (hsub.trans (by omega)) hwaiter set hevent ?_, h.read_update hread,
        h.strayed⟩
      by_cases hh : s.holders = 1
      · rw [if_pos (hlast.mpr hh)] at h3
        rw [if_pos (by omega)]
        omega
      · rw [if_neg fun hz => hh (hlast.mp hz)] at h3
        rw [if_neg (by omega)]
        omega
  | finished hvalue hh hs hwaiter => omega

theorem RundownInv.releaseSlow (h : RundownInv waitBlock s)
    (hpc : s.pc t = .releaseSlow) (hactive : s.value.toNat % 2 ≠ 0) :
    RundownInv waitBlock (s.goto t (.decrement (s.value &&& ~~~phRundownActive))) := by
  have hone := RundownState.one_le_holders (s := s) (t := t) (by rw [hpc]; rfl)
  obtain ⟨h1, -, h3⟩ := RundownState.moved (s := s)
    (r := s.goto t (.decrement (s.value &&& ~~~phRundownActive))) rfl
  rw [hpc] at h1 h3
  have hholders := Nat.add_right_cancel h1
  have hsetters := Nat.add_right_cancel h3
  cases h.phase with
  | giving hvalue hwaiter hevent hd hs => omega
  | waiting hvalue hcount hwaiter set hevent hset =>
      refine ⟨.waiting hvalue (hcount.trans hholders.symm) hwaiter set hevent ?_, h.read_update ?_,
        h.strayed⟩
      · rw [hholders, hsetters]
        exact hset
      · rw [hvalue]
        exact waitBlock.installed_clear
  | finished hvalue hh hs hwaiter => omega

theorem RundownInv.setEvent (h : RundownInv waitBlock s)
    (hpc : s.pc t = .setEvent) :
    RundownInv waitBlock ({ s with wakeEvent := s.wakeEvent.map fun _ => true }.goto t .idle) := by
  have hset := Census.le_total RundownPc.sets s.pc t
  rw [hpc] at hset
  have hset' : 1 ≤ s.setters := hset
  obtain ⟨h1, h2, h3⟩ := RundownState.moved (s := s)
    (r := { s with wakeEvent := s.wakeEvent.map fun _ => true }.goto t .idle) rfl
  simp only [hpc, RundownPc.holds, RundownPc.decrements, RundownPc.sets] at h1 h2 h3
  cases h.phase with
  | giving hvalue hwaiter hevent hd hs => omega
  | waiting hvalue hcount hwaiter set hevent hsetters =>
      have hzero : s.holders = 0 := by
        by_contra hne
        rw [if_neg hne] at hsetters
        omega
      rw [if_pos hzero] at hsetters
      refine ⟨.waiting hvalue (hcount.trans h1.symm) hwaiter true ?_ ?_, h.read_update trivial,
        h.strayed⟩
      · show s.wakeEvent.map (fun _ => true) = some true
        rw [hevent]
        rfl
      · rw [if_pos (Nat.add_right_cancel h1 |>.trans hzero)]
        show _ + 1 = 1
        omega
  | finished hvalue hh hs hwaiter => omega

/-! ## Every step -/

theorem RundownInv.advance (hcard : Fintype.card τ < 2 ^ 63)
    (h : RundownInv waitBlock s) (t : τ) : RundownInv waitBlock (s.advance waitBlock t) := by
  have heven : (s.value &&& ~~~phRundownActive).toNat % 2 = 0 := by
    rw [toNat_and_not_active]
    omega
  have hread := h.read t
  unfold RundownState.advance
  cases hpc : s.pc t with
  | idle => exact h
  | held => exact h
  | acquire => exact h.goto hpc rfl rfl rfl heven
  | acquireExchange value =>
      rw [hpc] at hread
      exact h.acquireExchange hcard hpc ⟨rfl, rfl, rfl⟩ hread
  | acquireSlow =>
      dsimp only
      split
      · exact h.goto hpc rfl rfl rfl trivial
      · next hinactive =>
        exact h.goto hpc rfl rfl rfl ((active_iff s.value).mp (not_not.mp hinactive))
  | acquireSlowExchange value =>
      rw [hpc] at hread
      exact h.acquireExchange hcard hpc ⟨rfl, rfl, rfl⟩ hread
  | release => exact h.goto hpc rfl rfl rfl heven
  | releaseExchange value =>
      rw [hpc] at hread
      exact h.releaseExchange hpc ⟨rfl, rfl, rfl⟩ hread
  | releaseSlow =>
      dsimp only
      split
      · next hactive =>
        exact h.releaseSlow hpc fun hzero => hactive ((active_iff s.value).mpr hzero)
      · next hinactive =>
        exact h.goto hpc rfl rfl rfl ((active_iff s.value).mp (not_not.mp hinactive))
  | releaseSlowExchange value =>
      rw [hpc] at hread
      exact h.releaseExchange hpc ⟨rfl, rfl, rfl⟩ hread
  | decrement block =>
      rw [hpc] at hread
      have hblock : block = waitBlock.address := hread
      dsimp only
      rw [if_pos hblock]
      refine h.decrement hpc ?_ ?_ ?_
      · split <;> rfl
      · split <;> rfl
      · split <;> trivial
  | setEvent => exact h.setEvent hpc

theorem RundownInv.mark (h : RundownInv waitBlock s) (hzero : s.value = 0) :
    RundownInv waitBlock { s with value := phRundownActive, waiter := .returned } := by
  have hnat : s.value.toNat = 0 := by rw [hzero]; rfl
  obtain ⟨hvalue, hwaiter, hevent, hd, hs⟩ := h.giving_of_even (by omega)
  refine ⟨.finished (.inl rfl) ?_ hs rfl, h.read, h.strayed⟩
  show s.holders = 0
  omega

theorem RundownInv.prepare {s s' : RundownState τ} (h : RundownInv waitBlock s)
    (hbefore : s.waiter ≠ .waitEvent ∧ s.waiter ≠ .returned) (hvalue : s'.value = s.value)
    (hpc : s'.pc = s.pc) (hstrayed : s'.strayed = s.strayed)
    (hevent : s'.wakeEvent = s.wakeEvent ∨ s'.wakeEvent = some false)
    (hprepared : s.waiter.Prepared s.count s.wakeEvent →
      s'.waiter.Prepared s'.count s'.wakeEvent) : RundownInv waitBlock s' := by
  refine ⟨?_, fun t => by rw [hpc]; exact h.read t, hstrayed.trans h.strayed⟩
  cases h.phase with
  | giving hv hwaiter he hd hs =>
      refine .giving ?_ (hprepared hwaiter) ?_ ?_ ?_
      · rw [hvalue, RundownState.holders, hpc]
        exact hv
      · rcases hevent with hsame | hfalse
        · rw [hsame]
          exact he
        · rw [hfalse]
          decide
      · rw [RundownState.decrementers, hpc]
        exact hd
      · rw [RundownState.setters, hpc]
        exact hs
  | waiting hv hcount hwaiter set he hset => exact absurd hwaiter hbefore.1
  | finished hv hh hs hwaiter => exact absurd hwaiter hbefore.2

theorem RundownInv.install (h : RundownInv waitBlock s)
    (hwaiter : s.waiter = .install s.value) :
    RundownInv waitBlock
      { s with
        value := waitBlock.address ||| phRundownActive
        waiter := if s.value >>> phRundownRefShift ≠ 0 then .waitEvent else .returned } := by
  cases h.phase with
  | giving hvalue hprepared hevent hd hs =>
      rw [hwaiter] at hprepared
      obtain ⟨hcount, hcreated⟩ := hprepared
      have hnat : s.count.toNat = s.holders := by
        rw [hcount, toNat_refCount]
        omega
      refine ⟨?_, h.read, h.strayed⟩
      split
      · next hne =>
        obtain ⟨set, hset⟩ := Option.ne_none_iff_exists'.mp (hcreated hne)
        have hclear : set = false := by
          cases set with
          | false => rfl
          | true => exact absurd hset hevent
        refine .waiting rfl hnat rfl set hset ?_
        show s.setters + _ = if s.holders = 0 then 1 else 0
        rw [hs, hclear, if_neg]
        · rfl
        · intro hzero
          exact hne (hcount ▸ BitVec.eq_of_toNat_eq (hnat.trans hzero))
      · next heq =>
        have hzero : s.count.toNat = 0 := by
          rw [hcount, not_not.mp heq]
          rfl
        exact .finished (.inr ⟨rfl, hzero⟩) (hnat.symm.trans hzero) hs rfl
  | waiting hvalue hcount hw set hevent hset => rw [hwaiter] at hw; cases hw
  | finished hvalue hh hs hw => rw [hwaiter] at hw; cases hw

theorem RundownInv.wake (h : RundownInv waitBlock s)
    (hwaiter : s.waiter = .waitEvent) (hset : s.wakeEvent = some true) :
    RundownInv waitBlock { s with waiter := .returned } := by
  cases h.phase with
  | giving hvalue hprepared hevent hd hs => exact absurd hset hevent
  | waiting hvalue hcount hw set hevent hsetters =>
      obtain rfl : set = true := Option.some.inj (hevent.symm.trans hset)
      have hzero : s.holders = 0 := by
        by_contra hne
        rw [if_neg hne] at hsetters
        cases hsetters
      rw [if_pos hzero] at hsetters
      exact ⟨.finished (.inr ⟨hvalue, hcount.trans hzero⟩) hzero (Nat.succ.inj hsetters) rfl,
        h.read, h.strayed⟩
  | finished hvalue hh hs hw => rw [hwaiter] at hw; cases hw

theorem RundownInv.not_active (h : RundownInv waitBlock s)
    (hbefore : s.waiter ≠ .waitEvent ∧ s.waiter ≠ .returned) : s.value ≠ phRundownActive := by
  intro hactive
  cases h.phase with
  | giving hvalue hprepared hevent hd hs =>
      have hone : s.value.toNat = 1 := by rw [hactive]; rfl
      omega
  | waiting hvalue hcount hw set hevent hset => exact hbefore.1 hw
  | finished hvalue hh hs hw => exact hbefore.2 hw

theorem RundownInv.wait (h : RundownInv waitBlock s) :
    RundownInv waitBlock (s.advanceWaiter waitBlock) := by
  unfold RundownState.advanceWaiter
  cases hwaiter : s.waiter with
  | idle =>
      exact h.prepare (by rw [hwaiter]; decide) rfl rfl rfl (.inl rfl) fun _ => trivial
  | exchange =>
      have hbefore : s.waiter ≠ .waitEvent ∧ s.waiter ≠ .returned := by rw [hwaiter]; decide
      dsimp only
      split
      · next hzero => exact h.mark hzero
      · rw [if_neg (h.not_active hbefore)]
        exact h.prepare hbefore rfl rfl rfl (.inl rfl) fun _ => trivial
  | exchangeSlow =>
      have hbefore : s.waiter ≠ .waitEvent ∧ s.waiter ≠ .returned := by rw [hwaiter]; decide
      dsimp only
      split
      · next hzero => exact h.mark hzero
      · rw [if_neg (h.not_active hbefore)]
        exact h.prepare hbefore rfl rfl rfl (.inl rfl) fun _ => trivial
  | read => exact h.prepare (by rw [hwaiter]; decide) rfl rfl rfl (.inl rfl) fun _ => trivial
  | initializeEvent value =>
      have hbefore : s.waiter ≠ .waitEvent ∧ s.waiter ≠ .returned := by
        rw [hwaiter]
        exact ⟨fun hno => (by cases hno), fun hno => (by cases hno)⟩
      dsimp only
      split
      · exact h.prepare hbefore rfl rfl rfl (.inr rfl) fun _ _ => Option.some_ne_none _
      · next hcreated =>
        exact h.prepare hbefore rfl rfl rfl (.inl rfl) fun _ hne hnone => hcreated ⟨hne, hnone⟩
  | saveCount value =>
      refine h.prepare ?_ rfl rfl rfl (.inl rfl) fun hprepared => ?_
      · rw [hwaiter]
        exact ⟨fun hno => (by cases hno), fun hno => (by cases hno)⟩
      · rw [hwaiter] at hprepared
        exact ⟨rfl, hprepared⟩
  | install value =>
      dsimp only
      split
      · next heq =>
        subst heq
        exact h.install hwaiter
      · refine h.prepare ?_ rfl rfl rfl (.inl rfl) fun _ => trivial
        rw [hwaiter]
        exact ⟨fun hno => (by cases hno), fun hno => (by cases hno)⟩
  | waitEvent =>
      dsimp only
      split
      · next hset => exact h.wake hwaiter hset
      · exact h
  | returned => exact h

theorem RundownStep.inv {s s' : RundownState τ} (hcard : Fintype.card τ < 2 ^ 63)
    (h : RundownInv waitBlock s) (hstep : RundownStep waitBlock s s') : RundownInv waitBlock s' := by
  cases hstep with
  | advance t => exact h.advance hcard t
  | acquire t hidle => exact h.goto hidle rfl rfl rfl trivial
  | release t hheld => exact h.goto hheld rfl rfl rfl trivial
  | wait => exact h.wait

theorem RundownInv.start : RundownInv waitBlock (RundownState.start (τ := τ)) := by
  have hzero : ∀ weight : RundownPc → Nat, weight .idle = 0 →
      Census.total weight (RundownState.start (τ := τ)).pc = 0 :=
    fun weight hidle => Census.total_eq_zero fun _ => hidle
  refine ⟨.giving ?_ trivial (fun hno => (by cases hno)) (hzero _ rfl) (hzero _ rfl),
    fun t => trivial, rfl⟩
  rw [RundownState.holders, hzero _ rfl]
  rfl

theorem RundownInv.run {s s' : RundownState τ} (hcard : Fintype.card τ < 2 ^ 63)
    (h : RundownInv waitBlock s) (hrun : Relation.ReflTransGen (RundownStep waitBlock) s s') :
    RundownInv waitBlock s' := by
  induction hrun with
  | refl => exact h
  | tail _ hstep ih => exact hstep.inv hcard ih

theorem RundownState.compareExchange_waiter (s : RundownState τ) (t : τ)
    (newValue value : ULongPtr) (success failure : RundownPc) :
    (s.compareExchange t newValue value success failure).waiter = s.waiter := by
  unfold RundownState.compareExchange
  split <;> rfl

theorem RundownState.advance_waiter (s : RundownState τ) (t : τ) :
    (s.advance waitBlock t).waiter = s.waiter := by
  unfold RundownState.advance
  cases s.pc t with
  | acquireExchange value => exact RundownState.compareExchange_waiter ..
  | acquireSlowExchange value => exact RundownState.compareExchange_waiter ..
  | releaseExchange value => exact RundownState.compareExchange_waiter ..
  | releaseSlowExchange value => exact RundownState.compareExchange_waiter ..
  | acquireSlow =>
      dsimp only
      split <;> rfl
  | releaseSlow =>
      dsimp only
      split <;> rfl
  | decrement block =>
      dsimp only
      split <;> rfl
  | _ => rfl

theorem RundownStep.returned {s s' : RundownState τ} (hstep : RundownStep waitBlock s s')
    (h : s.waiter = .returned) : s'.waiter = .returned := by
  cases hstep with
  | advance t => exact (RundownState.advance_waiter s t).trans h
  | acquire t hidle => exact h
  | release t hheld => exact h
  | wait =>
      unfold RundownState.advanceWaiter
      rw [h]
      exact h

theorem RundownState.returned_run {s s' : RundownState τ} (h : s.waiter = .returned)
    (hrun : Relation.ReflTransGen (RundownStep waitBlock) s s') : s'.waiter = .returned := by
  induction hrun with
  | refl => exact h
  | tail _ hstep ih => exact hstep.returned ih

/-! ## What holds in every reachable state -/

/-- The number of references that the word tells, or the block once it is installed. -/
def RundownState.counted (waitBlock : WaitBlock) (s : RundownState τ) : Nat :=
  if s.value = waitBlock.address ||| phRundownActive then s.count.toNat else s.value.toNat / 2

/-- When the wait has returned nobody has a reference and nobody gets one; the number that
counts is always the number of references, and no other block is ever used. -/
structure RundownProtects (waitBlock : WaitBlock) (s : RundownState τ) : Prop where
  returned : s.waiter = .returned →
    ∀ s', Relation.ReflTransGen (RundownStep waitBlock) s s' → s'.holders = 0
  installed : s.value = waitBlock.address ||| phRundownActive → s.count.toNat = s.holders
  counted : s.counted waitBlock = s.holders
  strayed : s.strayed = false

theorem RundownInv.protects (h : RundownInv waitBlock s)
    (hreturned : s.waiter = .returned →
      ∀ s', Relation.ReflTransGen (RundownStep waitBlock) s s' → s'.holders = 0) :
    RundownProtects waitBlock s := by
  have hinstalled : s.value = waitBlock.address ||| phRundownActive →
      s.count.toNat = s.holders := by
    intro hvalue
    cases h.phase with
    | giving hv hprepared hevent hd hs =>
        have hodd := waitBlock.toNat_installed
        have haddress := waitBlock.toNat_address
        rw [← hvalue] at hodd
        omega
    | waiting hv hcount hw set hevent hset => exact hcount
    | finished hv hh hs hw =>
        rcases hv with hactive | ⟨-, hzero⟩
        · exact absurd (hactive.symm.trans hvalue) waitBlock.installed_ne_active
        · exact hzero.trans hh.symm
  refine ⟨hreturned, hinstalled, ?_, h.strayed⟩
  rw [RundownState.counted]
  split
  · next hvalue => exact hinstalled hvalue
  · next hvalue =>
    cases h.phase with
    | giving hv hprepared hevent hd hs => omega
    | waiting hv hcount hw set hevent hset => exact absurd hv hvalue
    | finished hv hh hs hw =>
        rcases hv with hactive | ⟨hinstalled, -⟩
        · rw [hactive, hh]
          rfl
        · exact absurd hinstalled hvalue

theorem phRundownProtection_protects {s : RundownState τ} (hcard : Fintype.card τ < 2 ^ 63)
    (hrun : Relation.ReflTransGen (RundownStep waitBlock) RundownState.start s) :
    RundownProtects waitBlock s := by
  have h := RundownInv.start.run hcard hrun
  refine h.protects fun hreturned s' hrun' => ?_
  cases (h.run hcard hrun').phase with
  | giving hv hprepared hevent hd hs =>
      rw [RundownState.returned_run hreturned hrun'] at hprepared
      exact hprepared.elim
  | waiting hv hcount hw set hevent hset =>
      exact absurd ((RundownState.returned_run hreturned hrun').symm.trans hw) (by decide)
  | finished hv hh hs hw => exact hh

end

def stackBlock : WaitBlock := ⟨0x7ff0, by decide, by decide⟩

/-- A user acquires a reference, the waiter installs its block, and the user releases it. -/
def rundownReleased : RundownState Unit :=
  let held := (fun s => s.advance stackBlock ())^[2] (RundownState.start.goto () .acquire)
  let waiting := (fun s => s.advanceWaiter stackBlock)^[7] held
  let released := (fun s => s.advance stackBlock ())^[5] (waiting.goto () .release)
  (fun s => s.advanceWaiter stackBlock)^[1] released

theorem rundownReleased_run :
    Relation.ReflTransGen (RundownStep stackBlock) RundownState.start rundownReleased := by
  have goOn := Runs.iterate_run fun s : RundownState Unit =>
    (RundownStep.advance () : RundownStep stackBlock s _)
  have goOnWaiting := Runs.iterate_run fun s : RundownState Unit =>
    (RundownStep.wait : RundownStep stackBlock s _)
  refine .head (.acquire () rfl) (.trans (goOn 2 _) (.trans (goOnWaiting 7 _)
    (.head (.release () ?_) (.trans (goOn 5 _) (goOnWaiting 1 _)))))
  rfl

theorem phRundownProtection_protects_released : rundownReleased.waiter = .returned ∧
    rundownReleased.value = stackBlock.address ||| phRundownActive ∧
    RundownProtects stackBlock rundownReleased :=
  ⟨by decide, by decide, phRundownProtection_protects (by decide) rundownReleased_run⟩

/-! ## Too many users for the word -/

/-- The first `n` users have a reference each. -/
def firstHold (n : Nat) : RundownState (Fin (2 ^ 63)) where
  value := BitVec.ofNat 64 (2 * n)
  count := 0
  wakeEvent := none
  waiter := .idle
  pc := fun t => if t.val < n then .held else .idle
  strayed := false

theorem RundownState.acquire_run {τ : Type} [DecidableEq τ] {s : RundownState τ} {t : τ}
    (hidle : s.pc t = .idle) (heven : s.value &&& ~~~phRundownActive = s.value) :
    Relation.ReflTransGen (RundownStep waitBlock) s
      ({ s with value := s.value + phRundownRefInc }.goto t .held) := by
  have hread : (s.goto t .acquire).advance waitBlock t =
      s.goto t (.acquireExchange s.value) := by
    simp [advance, goto, heven]
  have hexchange : (s.goto t (.acquireExchange s.value)).advance waitBlock t =
      { s with value := s.value + phRundownRefInc }.goto t .held := by
    simp [advance, goto, compareExchange]
  refine .head (.acquire t hidle) (.head (.advance t) ?_)
  rw [hread]
  exact .tail .refl (hexchange ▸ .advance t)

theorem firstHold_succ {n : Nat} (hn : n < 2 ^ 63) :
    Relation.ReflTransGen (RundownStep waitBlock) (firstHold n) (firstHold (n + 1)) := by
  have heven : (firstHold n).value &&& ~~~phRundownActive = (firstHold n).value := by
    refine BitVec.eq_of_toNat_eq ?_
    rw [toNat_and_not_active]
    show (2 * n) % 2 ^ 64 - (2 * n) % 2 ^ 64 % 2 = (2 * n) % 2 ^ 64
    omega
  have hnext : { firstHold n with value := (firstHold n).value + phRundownRefInc }.goto ⟨n, hn⟩
      .held = firstHold (n + 1) := by
    rw [RundownState.goto, firstHold, firstHold, RundownState.mk.injEq]
    refine ⟨?_, rfl, rfl, rfl, funext fun t => ?_, rfl⟩
    · show BitVec.ofNat 64 (2 * n) + BitVec.ofNat 64 2 = BitVec.ofNat 64 (2 * (n + 1))
      rw [← BitVec.ofNat_add]
      rfl
    · by_cases ht : t = ⟨n, hn⟩
      · rw [ht, Function.update_self, if_pos (Nat.lt_succ_self n)]
      · have hne : t.val ≠ n := fun heq => ht (Fin.ext heq)
        rw [Function.update_of_ne ht]
        show (if t.val < n then RundownPc.held else .idle) =
          if t.val < n + 1 then .held else .idle
        by_cases hlt : t.val < n
        · rw [if_pos hlt, if_pos (by omega)]
        · rw [if_neg hlt, if_neg (by omega)]
  exact hnext ▸ RundownState.acquire_run (if_neg (Nat.lt_irrefl n)) heven

theorem firstHold_run {n : Nat} (hn : n ≤ 2 ^ 63) :
    Relation.ReflTransGen (RundownStep waitBlock) RundownState.start (firstHold n) := by
  induction n with
  | zero =>
      have hstart : firstHold 0 = RundownState.start := by
        rw [firstHold, RundownState.start, RundownState.mk.injEq]
        exact ⟨rfl, rfl, rfl, rfl, funext fun t => if_neg (Nat.not_lt_zero _), rfl⟩
      rw [hstart]
  | succ n ih => exact (ih (by omega)).trans (firstHold_succ (by omega))

/-- With a reference too many the word is zero again, and the wait returns while everyone
has a reference. -/
theorem phRundownProtection_overflow : ∃ s : RundownState (Fin (2 ^ 63)),
    Relation.ReflTransGen (RundownStep stackBlock) RundownState.start s ∧
      s.waiter = .returned ∧ ∃ t, s.pc t = .held := by
  have hrun : Relation.ReflTransGen (RundownStep stackBlock) RundownState.start
      (firstHold (2 ^ 63)) := firstHold_run (Nat.le_refl _)
  have hzero : (firstHold (2 ^ 63)).value = 0 := by decide
  have hheld : (firstHold (2 ^ 63)).pc ⟨0, by decide⟩ = .held := by simp [firstHold]
  have hidle : (firstHold (2 ^ 63)).waiter = .idle := rfl
  have hwait : ((firstHold (2 ^ 63)).advanceWaiter stackBlock).advanceWaiter stackBlock =
      { firstHold (2 ^ 63) with value := phRundownActive, waiter := .returned } := by
    simp only [RundownState.advanceWaiter, hidle, if_pos hzero]
  refine ⟨_, .tail (.tail hrun .wait) .wait, ?_⟩
  rw [hwait]
  exact ⟨rfl, ⟨0, by decide⟩, hheld⟩

end SystemInformer.PhLib
