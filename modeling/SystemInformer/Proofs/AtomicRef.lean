import SystemInformer.Driver.AtomicRef
import SystemInformer.Lib.Census
import SystemInformer.Lib.TaggedWord

/-!
# Atomic object references are exact

The four low bits of a word are, at every time, the number of threads that hold its lock
shared plus eight for the thread that has set the exclusive flag. A thread only gets the
lock shared while the four bits are below seven, so the count never reaches the flag, and
the flag keeps further threads out; the holder of the flag waits until the count is zero.
So nobody exchanges the address while a thread that holds the lock shared is about to
reference the object, and the word itself accounts for a reference until it has.

The count of an object is the number of references to it: those that threads own and those
of the words. It drops to zero only when the last one is given up, so the object is
condemned then, and once.
-/

set_option linter.unusedSectionVars false

namespace SystemInformer.Driver

open Census TaggedWord

/-! ## Bits -/

def objectOf (word : ULongPtr) : ULongPtr := word &&& atomicObjectRefObjectMask

theorem toNat_objectOf (w : ULongPtr) : (objectOf w).toNat = pointer 4 w :=
  toNat_and_not_mask 4 (by decide) w

theorem toNat_and_lockMask (w : ULongPtr) : (w &&& atomicObjectRefLockMask).toNat = tag 4 w :=
  toNat_and_mask 4 (by decide) w

theorem toNat_and_sharedMax (w : ULongPtr) : (w &&& atomicObjectRefSharedMax).toNat = tag 3 w :=
  toNat_and_mask 3 (by decide) w

theorem tag_four_lt (w : ULongPtr) : tag 4 w < 16 := Nat.mod_lt _ (by decide)

theorem objectOf_eq {w w' : ULongPtr} (h : pointer 4 w = pointer 4 w') :
    objectOf w = objectOf w' := by
  refine BitVec.eq_of_toNat_eq ?_
  rw [toNat_objectOf, toNat_objectOf, h]

theorem tag_pointer_of_toNat {w w' : ULongPtr} {m : Nat} (hm : m < 16)
    (h : w'.toNat = pointer 4 w + m) : tag 4 w' = m ∧ objectOf w' = objectOf w := by
  have hw := toNat_eq 4 w
  have htag : tag 4 w = w.toNat % 16 := rfl
  have htag' : tag 4 w' = m := by
    rw [tag, h]
    omega
  refine ⟨htag', objectOf_eq ?_⟩
  have hw' := toNat_eq 4 w'
  omega

theorem add_one_bits {w : ULongPtr} (h : tag 4 w < 7) :
    tag 4 (w + 1) = tag 4 w + 1 ∧ objectOf (w + 1) = objectOf w := by
  refine tag_pointer_of_toNat (by omega) ?_
  have hw := toNat_eq 4 w
  have htag : tag 4 w = w.toNat % 16 := rfl
  have hlt := w.isLt
  rw [BitVec.toNat_add, Nat.mod_eq_of_lt (by simp; omega)]
  simp
  omega

theorem sub_one_bits {w : ULongPtr} (h : 0 < tag 4 w) :
    tag 4 (w - 1) = tag 4 w - 1 ∧ objectOf (w - 1) = objectOf w := by
  have hw := toNat_eq 4 w
  have htag := tag_four_lt w
  refine tag_pointer_of_toNat (by omega) ?_
  have hone : (1 : ULongPtr).toNat = 1 := rfl
  have hle : (1 : ULongPtr) ≤ w := by
    rw [BitVec.le_def, hone]
    omega
  rw [BitVec.toNat_sub_of_le hle, hone]
  omega

theorem toNat_and_flag (w : ULongPtr) :
    (w &&& atomicObjectRefExclusiveFlag).toNat + tag 3 w = tag 4 w := by
  have hsum := toNat_and_add (w &&& atomicObjectRefLockMask) atomicObjectRefSharedMax
  rw [BitVec.and_assoc, BitVec.and_assoc, toNat_and_lockMask] at hsum
  rw [← toNat_and_sharedMax]
  exact hsum

theorem and_flag_eq_zero {w : ULongPtr} :
    w &&& atomicObjectRefExclusiveFlag = 0 ↔ tag 4 w < 8 := by
  have hsum := toNat_and_flag w
  have h₃ : tag 3 w = w.toNat % 8 := rfl
  have h₄ : tag 4 w = w.toNat % 16 := rfl
  constructor
  · intro h
    rw [h] at hsum
    have hzero : (0 : ULongPtr).toNat = 0 := rfl
    omega
  · intro h
    refine BitVec.eq_of_toNat_eq ?_
    have hzero : (0 : ULongPtr).toNat = 0 := rfl
    omega

theorem or_flag_bits {w : ULongPtr} (h : tag 4 w < 8) :
    tag 4 (w ||| atomicObjectRefExclusiveFlag) = tag 4 w + 8 ∧
      objectOf (w ||| atomicObjectRefExclusiveFlag) = objectOf w := by
  refine tag_pointer_of_toNat (by omega) ?_
  rw [toNat_or_of_and_eq_zero (and_flag_eq_zero.mpr h)]
  have hw := toNat_eq 4 w
  have hflag : atomicObjectRefExclusiveFlag.toNat = 8 := rfl
  omega

theorem and_not_flag_bits {w : ULongPtr} (h : 8 ≤ tag 4 w) :
    tag 4 (w &&& ~~~atomicObjectRefExclusiveFlag) = tag 4 w - 8 ∧
      objectOf (w &&& ~~~atomicObjectRefExclusiveFlag) = objectOf w := by
  have htag := tag_four_lt w
  refine tag_pointer_of_toNat (by omega) ?_
  have hsum := toNat_and_add w atomicObjectRefExclusiveFlag
  have hflag := toNat_and_flag w
  have h₃ : tag 3 w = w.toNat % 8 := rfl
  have h₄ : tag 4 w = w.toNat % 16 := rfl
  have hw := toNat_eq 4 w
  omega

theorem objectOf_of_aligned {o : ULongPtr} (h : tag 4 o = 0) : objectOf o = o := by
  refine BitVec.eq_of_toNat_eq ?_
  have := toNat_eq 4 o
  rw [toNat_objectOf]
  omega

theorem tag_objectOf (w : ULongPtr) : tag 4 (objectOf w) = 0 := by
  have hw := toNat_eq 4 w
  have htag : tag 4 w = w.toNat % 16 := rfl
  rw [tag, toNat_objectOf]
  omega

/-! ## Who holds a lock -/

section

variable {τ ρ : Type} [DecidableEq τ] [DecidableEq ρ]

/-- One if the thread holds the lock of `ref` shared. -/
def RefPc.shares (ref : ρ) : RefPc ρ → Nat
  | .referenceLoad r => if r = ref then 1 else 0
  | .referenceIncrement r _ => if r = ref then 1 else 0
  | .sharedRelease r _ _ => if r = ref then 1 else 0
  | _ => 0

/-- One if the thread has set the exclusive flag of `ref`. -/
def RefPc.flags (ref : ρ) : RefPc ρ → Nat
  | .exclusiveWait r _ _ _ => if r = ref then 1 else 0
  | .storeLoad r _ _ => if r = ref then 1 else 0
  | .storeExchange r _ _ _ => if r = ref then 1 else 0
  | .exclusiveRelease r _ _ => if r = ref then 1 else 0
  | _ => 0

/-- What the place a thread is at says of the word, given the address in each word and the
number of its shared holders. -/
def RefPc.Locked (object : ρ → ULongPtr) (shares : ρ → Nat) : RefPc ρ → Prop
  | .sharedExchange _ w => tag 4 w < 7
  | .referenceIncrement ref o => o = object ref ∧ o ≠ 0
  | .assignIncrement _ o => tag 4 o = 0
  | .exclusiveRead _ o _ => tag 4 o = 0
  | .exclusiveExchange _ o _ expected => tag 4 o = 0 ∧ tag 4 expected < 8
  | .exclusiveWait ref o _ read => tag 4 o = 0 ∧ (tag 3 read = 0 → shares ref = 0)
  | .storeLoad ref o _ => tag 4 o = 0 ∧ shares ref = 0
  | .storeExchange ref o _ previous => tag 4 o = 0 ∧ shares ref = 0 ∧ previous = object ref
  | .exclusiveRelease ref _ _ => shares ref = 0
  | _ => True

variable {pc : RefPc ρ}

theorem RefPc.Locked.frame {object object' : ρ → ULongPtr} {shares shares' : ρ → Nat} (h : pc.Locked object shares)
    (hobject : ∀ ref, object' ref = object ref ∨ (pc.shares ref = 0 ∧ pc.flags ref = 0))
    (hshares : ∀ ref, shares ref = 0 → shares' ref = 0 ∨ pc.flags ref = 0) :
    pc.Locked object' shares' := by
  cases pc with
  | referenceIncrement ref o =>
      rcases hobject ref with heq | ⟨hzero, -⟩
      · exact ⟨heq ▸ h.1, h.2⟩
      · simp [RefPc.shares] at hzero
  | exclusiveWait ref o assign read =>
      refine ⟨h.1, fun hread => (hshares ref (h.2 hread)).resolve_right ?_⟩
      simp [RefPc.flags]
  | storeLoad ref o assign =>
      refine ⟨h.1, (hshares ref h.2).resolve_right ?_⟩
      simp [RefPc.flags]
  | storeExchange ref o assign previous =>
      obtain ⟨haligned, hnone, hprevious⟩ := h
      refine ⟨haligned, (hshares ref hnone).resolve_right (by simp [RefPc.flags]), ?_⟩
      rcases hobject ref with heq | ⟨-, hzero⟩
      · exact hprevious.trans heq.symm
      · simp [RefPc.flags] at hzero
  | exclusiveRelease ref assign previous =>
      exact (hshares ref h).resolve_right (by simp [RefPc.flags])
  | _ => exact h

variable [Fintype τ]

def RefState.shares (s : RefState τ ρ) (ref : ρ) : Nat := total (RefPc.shares ref) s.pc

def RefState.flags (s : RefState τ ρ) (ref : ρ) : Nat := total (RefPc.flags ref) s.pc

def RefState.object (s : RefState τ ρ) (ref : ρ) : ULongPtr := objectOf (s.word ref)

structure LockInv (s : RefState τ ρ) : Prop where
  /-- The lock bits are the threads that hold the lock. -/
  bits : ∀ ref, tag 4 (s.word ref) = 8 * s.flags ref + s.shares ref
  few : ∀ ref, s.shares ref ≤ 7
  pcs : ∀ t, (s.pc t).Locked s.object s.shares
  aligned : ∀ t o, 0 < s.owned t o → tag 4 o = 0

variable {s : RefState τ ρ}

theorem LockInv.flags_le (h : LockInv s) (ref : ρ) : s.flags ref ≤ 1 := by
  have := h.bits ref
  have := tag_four_lt (s.word ref)
  omega

variable {t : τ}

/-- One thread goes on to `pc`: the lock bits change by what it held and what it holds,
the address only changes while it has the lock alone, and it only joins the shared holders
while the lock bits are below seven. -/
theorem LockInv.move {s s' : RefState τ ρ} (h : LockInv s)
    (hpc : s'.pc = Function.update s.pc t pc)
    (hword : ∀ ref, tag 4 (s'.word ref) + 8 * (s.pc t).flags ref + (s.pc t).shares ref =
      tag 4 (s.word ref) + 8 * pc.flags ref + pc.shares ref)
    (hobject : ∀ ref, s'.object ref = s.object ref ∨ ((s.pc t).flags ref = 1 ∧ s.shares ref = 0))
    (hshare : ∀ ref, pc.shares ref ≤ (s.pc t).shares ref ∨
      (pc.shares ref ≤ 1 ∧ tag 4 (s.word ref) < 7))
    (hself : (∀ ref, s'.shares ref + (s.pc t).shares ref = s.shares ref + pc.shares ref) →
      pc.Locked s'.object s'.shares)
    (haligned : ∀ t o, 0 < s'.owned t o → tag 4 o = 0) : LockInv s' := by
  have hshares : ∀ ref, s'.shares ref + (s.pc t).shares ref = s.shares ref + pc.shares ref := by
    intro ref
    rw [RefState.shares, hpc]
    exact total_update _ _ _ _
  have hflags : ∀ ref, s'.flags ref + (s.pc t).flags ref = s.flags ref + pc.flags ref := by
    intro ref
    rw [RefState.flags, hpc]
    exact total_update _ _ _ _
  refine ⟨fun ref => ?_, fun ref => ?_, fun t' => ?_, haligned⟩
  · have := h.bits ref
    have := hword ref
    have := hshares ref
    have := hflags ref
    omega
  · have := h.bits ref
    have := h.few ref
    have := hshares ref
    rcases hshare ref with hle | ⟨hone, hlt⟩
    · omega
    · omega
  · by_cases heq : t' = t
    · subst heq
      rw [hpc, Function.update_self]
      exact hself hshares
    · rw [hpc, Function.update_of_ne heq]
      refine (h.pcs t').frame (fun ref => ?_) fun ref hzero => ?_
      · rcases hobject ref with hsame | ⟨hflag, hnone⟩
        · exact .inl hsame
        · -- The thread that has the lock alone is the only one that holds it.
          refine .inr ⟨eq_zero_of_total hnone t', ?_⟩
          have hle := h.flags_le ref
          have hadd := add_le_total (RefPc.flags ref) s.pc heq
          rw [RefState.flags] at hle
          omega
      · rcases hshare ref with hle | ⟨-, hlt⟩
        · have := hshares ref
          have := le_total (RefPc.shares ref) s.pc t
          rw [← RefState.shares] at this
          exact .inl (by omega)
        · have := h.bits ref
          exact .inr (eq_zero_of_total (show total (RefPc.flags ref) s.pc = 0 from by
            rw [← RefState.flags]; omega) t')

theorem LockInv.goto {s s' : RefState τ ρ} (h : LockInv s)
    (hpc : s'.pc = Function.update s.pc t pc) (hword : s'.word = s.word)
    (hflags : ∀ ref, pc.flags ref = (s.pc t).flags ref)
    (hshares : ∀ ref, pc.shares ref = (s.pc t).shares ref)
    (hself : pc.Locked s.object s.shares)
    (haligned : ∀ t o, 0 < s'.owned t o → tag 4 o = 0) : LockInv s' := by
  have hobject : s'.object = s.object := by
    funext ref
    rw [RefState.object, hword]
    rfl
  refine h.move hpc (fun ref => by rw [hword, hflags, hshares]) (fun ref => .inl (by rw [hobject]))
    (fun ref => .inl (hshares ref).le) (fun hsum => ?_) haligned
  have hsame : s'.shares = s.shares := by
    funext ref
    have := hsum ref
    have := hshares ref
    omega
  rwa [hobject, hsame]

/-! ### References that threads own -/

theorem take_word (s : RefState τ ρ) (t : τ) (o : ULongPtr) : (s.take t o).word = s.word := by
  unfold RefState.take
  split <;> rfl

theorem take_pc (s : RefState τ ρ) (t : τ) (o : ULongPtr) : (s.take t o).pc = s.pc := by
  unfold RefState.take
  split <;> rfl

theorem give_word (s : RefState τ ρ) (t : τ) (o : ULongPtr) : (s.give t o).word = s.word := by
  unfold RefState.give
  split <;> rfl

theorem give_pc (s : RefState τ ρ) (t : τ) (o : ULongPtr) : (s.give t o).pc = s.pc := by
  unfold RefState.give
  split <;> rfl

variable {o : ULongPtr}

theorem take_owned (s : RefState τ ρ) (t t' : τ) (o' : ULongPtr) (ho : o ≠ 0) :
    (s.take t o).owned t' o' = s.owned t' o' + if t' = t ∧ o' = o then 1 else 0 := by
  rw [RefState.take, if_neg ho]
  by_cases ht : t' = t
  · subst ht
    by_cases heq : o' = o
    · subst heq
      simp
    · simp [heq]
  · simp [ht]

theorem give_owned (s : RefState τ ρ) (t t' : τ) (o' : ULongPtr) (ho : o ≠ 0) :
    (s.give t o).owned t' o' = s.owned t' o' - if t' = t ∧ o' = o then 1 else 0 := by
  rw [RefState.give, if_neg ho]
  by_cases ht : t' = t
  · subst ht
    by_cases heq : o' = o
    · subst heq
      simp
    · simp [heq]
  · simp [ht]

theorem take_owned_of_ne (s : RefState τ ρ) {t t' : τ} (h : t' ≠ t) (o : ULongPtr) :
    (s.take t o).owned t' = s.owned t' := by
  unfold RefState.take
  split
  · rfl
  · exact Function.update_of_ne h ..

theorem give_owned_of_ne (s : RefState τ ρ) {t t' : τ} (h : t' ≠ t) (o : ULongPtr) :
    (s.give t o).owned t' = s.owned t' := by
  unfold RefState.give
  split
  · rfl
  · exact Function.update_of_ne h ..

theorem aligned_take (h : ∀ t o, 0 < s.owned t o → tag 4 o = 0) (t : τ) (ho : tag 4 o = 0) : ∀ t' o', 0 < (s.take t o).owned t' o' → tag 4 o' = 0 := by
  intro t' o' hpos
  by_cases hnull : o = 0
  · rw [RefState.take, if_pos hnull] at hpos
    exact h t' o' hpos
  · rw [take_owned s t t' o' hnull] at hpos
    by_cases hsame : t' = t ∧ o' = o
    · rw [hsame.2]
      exact ho
    · rw [if_neg hsame] at hpos
      exact h t' o' hpos

theorem aligned_give (h : ∀ t o, 0 < s.owned t o → tag 4 o = 0) (t : τ)
    (o : ULongPtr) : ∀ t' o', 0 < (s.give t o).owned t' o' → tag 4 o' = 0 := by
  intro t' o' hpos
  by_cases hnull : o = 0
  · rw [RefState.give, if_pos hnull] at hpos
    exact h t' o' hpos
  · rw [give_owned s t t' o' hnull] at hpos
    exact h t' o' (Nat.lt_of_lt_of_le hpos (Nat.sub_le _ _))

/-! ### One step -/

variable {ref : ρ}

theorem object_update {word : ρ → ULongPtr} {w : ULongPtr}
    (h : objectOf w = objectOf (word ref)) (ref' : ρ) :
    objectOf (Function.update word ref w ref') = objectOf (word ref') := by
  by_cases heq : ref' = ref
  · subst heq
    rwa [Function.update_self]
  · rw [Function.update_of_ne heq]

theorem setWord_goto_self (s : RefState τ ρ) (ref : ρ) (w : ULongPtr) (t : τ) (pc : RefPc ρ) :
    ((s.setWord ref w).goto t pc).word ref = w := Function.update_self ..

theorem setWord_goto_of_ne (s : RefState τ ρ) {ref ref' : ρ} (h : ref' ≠ ref) (w : ULongPtr) (t : τ)
    (pc : RefPc ρ) : ((s.setWord ref w).goto t pc).word ref' = s.word ref' :=
  Function.update_of_ne h ..

theorem LockInv.sharedExchange {w : ULongPtr} (h : LockInv s)
    (hp : s.pc t = .sharedExchange ref w) (hw : s.word ref = w) :
    LockInv ((s.setWord ref (w + 1)).goto t (.referenceLoad ref)) := by
  have hl := h.pcs t
  rw [hp] at hl
  have hlow : tag 4 w < 7 := hl
  obtain ⟨htag, hobj⟩ := add_one_bits hlow
  refine h.move rfl (fun ref' => ?_) (fun ref' => .inl (object_update (hw ▸ hobj) ref'))
    (fun ref' => ?_) (fun _ => trivial) h.aligned
  · by_cases heq : ref' = ref
    · subst heq
      rw [setWord_goto_self, htag, hp, hw]
      simp [RefPc.flags, RefPc.shares]
    · rw [setWord_goto_of_ne s heq, hp]
      simp [RefPc.flags, RefPc.shares, Ne.symm heq]
  · by_cases heq : ref' = ref
    · subst heq
      exact .inr ⟨by simp [RefPc.shares], hw ▸ hlow⟩
    · exact .inl (by simp [RefPc.shares, Ne.symm heq])

theorem LockInv.sharedRelease {before : Int}
    (h : LockInv s) (hp : s.pc t = .sharedRelease ref o before) :
    LockInv ((s.setWord ref (s.word ref - 1)).goto t .idle) := by
  have hheld : 1 ≤ s.shares ref := by
    have := le_total (RefPc.shares ref) s.pc t
    rwa [hp, RefPc.shares, if_pos rfl] at this
  have hbits := h.bits ref
  obtain ⟨htag, hobj⟩ := sub_one_bits (w := s.word ref) (by omega)
  refine h.move rfl (fun ref' => ?_) (fun ref' => .inl (object_update hobj ref'))
    (fun ref' => .inl (Nat.zero_le _)) (fun _ => trivial) h.aligned
  by_cases heq : ref' = ref
  · subst heq
    rw [setWord_goto_self, htag, hp]
    simp only [RefPc.flags, RefPc.shares, if_true]
    omega
  · rw [setWord_goto_of_ne s heq, hp]
    simp [RefPc.flags, RefPc.shares, Ne.symm heq]

theorem LockInv.exclusiveExchange {o w : ULongPtr}
    {assign : Bool} (h : LockInv s) (hp : s.pc t = .exclusiveExchange ref o assign w)
    (hw : s.word ref = w) :
    LockInv ((s.setWord ref (w ||| atomicObjectRefExclusiveFlag)).goto t
      (.exclusiveWait ref o assign w)) := by
  have hl := h.pcs t
  rw [hp] at hl
  obtain ⟨haligned, hlow⟩ := hl
  obtain ⟨htag, hobj⟩ := or_flag_bits hlow
  refine h.move rfl (fun ref' => ?_) (fun ref' => .inl (object_update (hw ▸ hobj) ref'))
    (fun ref' => .inl (Nat.zero_le _)) (fun hsum => ⟨haligned, fun hread => ?_⟩) h.aligned
  · by_cases heq : ref' = ref
    · subst heq
      rw [setWord_goto_self, htag, hp, hw]
      simp [RefPc.flags, RefPc.shares]
    · rw [setWord_goto_of_ne s heq, hp]
      simp [RefPc.flags, RefPc.shares, Ne.symm heq]
  · -- The word that was exchanged had no shared holders.
    have hbits := h.bits ref
    have hfew := h.few ref
    have hsum := hsum ref
    rw [hp] at hsum
    simp only [RefPc.shares, Nat.add_zero] at hsum
    have h₃ : tag 3 w = w.toNat % 8 := rfl
    have h₄ : tag 4 w = w.toNat % 16 := rfl
    rw [hw] at hbits
    omega

theorem LockInv.storeExchange {o previous : ULongPtr}
    {assign : Bool} (h : LockInv s) (hp : s.pc t = .storeExchange ref o assign previous) :
    LockInv ((((s.setWord ref (o ||| atomicObjectRefExclusiveFlag)).give t o).take t
      previous).goto t (.exclusiveRelease ref assign previous)) := by
  have hl := h.pcs t
  rw [hp] at hl
  obtain ⟨haligned, hnone, hprevious⟩ := hl
  have hflag : s.flags ref = 1 := by
    have := le_total (RefPc.flags ref) s.pc t
    rw [hp, RefPc.flags, if_pos rfl] at this
    exact Nat.le_antisymm (h.flags_le ref) this
  have hbits := h.bits ref
  obtain ⟨htag, -⟩ := or_flag_bits (w := o) (by omega)
  have hword : ((((s.setWord ref (o ||| atomicObjectRefExclusiveFlag)).give t o).take t
      previous).goto t (.exclusiveRelease ref assign previous)).word =
      Function.update s.word ref (o ||| atomicObjectRefExclusiveFlag) := by
    rw [RefState.goto, take_word, give_word]
    rfl
  refine h.move (by rw [RefState.goto, take_pc, give_pc]; rfl) (fun ref' => ?_) (fun ref' => ?_)
    (fun ref' => .inl (Nat.zero_le _)) (fun hsum => ?_) ?_
  · rw [hword]
    by_cases heq : ref' = ref
    · subst heq
      simp [hp, RefPc.flags, RefPc.shares, htag]
      omega
    · simp [hp, RefPc.flags, RefPc.shares, heq]
  · by_cases heq : ref' = ref
    · subst heq
      exact .inr ⟨by simp [hp, RefPc.flags], hnone⟩
    · refine .inl ?_
      rw [RefState.object, hword, Function.update_of_ne heq]
      rfl
  · have := hsum ref
    rw [hp] at this
    simp only [RefPc.shares, Nat.add_zero] at this
    show _ = 0
    omega
  · have hgiven := aligned_give (s := s.setWord ref (o ||| atomicObjectRefExclusiveFlag)) h.aligned t o
    refine aligned_take hgiven t ?_
    rw [hprevious]
    exact tag_objectOf _

theorem LockInv.exclusiveRelease {previous : ULongPtr}
    {assign : Bool} (h : LockInv s)
    (hp : s.pc t = .exclusiveRelease ref assign previous)
    (hpc : pc = .dereference previous ∨ pc = .idle) :
    LockInv ((s.setWord ref (s.word ref &&& ~~~atomicObjectRefExclusiveFlag)).goto t pc) := by
  have hl := h.pcs t
  rw [hp] at hl
  have hflag : 1 ≤ s.flags ref := by
    have := le_total (RefPc.flags ref) s.pc t
    rwa [hp, RefPc.flags, if_pos rfl] at this
  have hbits := h.bits ref
  obtain ⟨htag, hobj⟩ := and_not_flag_bits (w := s.word ref) (by omega)
  have hnothing : ∀ ref', pc.flags ref' = 0 ∧ pc.shares ref' = 0 := by
    rcases hpc with rfl | rfl
    · exact fun _ => ⟨rfl, rfl⟩
    · exact fun _ => ⟨rfl, rfl⟩
  refine h.move rfl (fun ref' => ?_) (fun ref' => .inl (object_update hobj ref'))
    (fun ref' => .inl (by rw [(hnothing ref').2]; exact Nat.zero_le _)) (fun _ => ?_) h.aligned
  · rw [(hnothing ref').1, (hnothing ref').2]
    by_cases heq : ref' = ref
    · subst heq
      rw [setWord_goto_self, htag, hp]
      simp only [RefPc.flags, RefPc.shares, if_true]
      omega
    · rw [setWord_goto_of_ne s heq, hp]
      simp [RefPc.flags, RefPc.shares, Ne.symm heq]
  · rcases hpc with rfl | rfl
    · trivial
    · trivial

theorem kphReferenceObject_word (s : RefState τ ρ) (t : τ) (o : ULongPtr) :
    (s.kphReferenceObject t o).word = s.word := take_word s t o

theorem kphReferenceObject_pc (s : RefState τ ρ) (t : τ) (o : ULongPtr) :
    (s.kphReferenceObject t o).pc = s.pc := take_pc s t o

theorem kphDereferenceObject_word (s : RefState τ ρ) (t : τ) (o : ULongPtr) :
    (s.kphDereferenceObject t o).word = s.word := give_word s t o

theorem kphDereferenceObject_pc (s : RefState τ ρ) (t : τ) (o : ULongPtr) :
    (s.kphDereferenceObject t o).pc = s.pc := give_pc s t o

theorem goto_pc {s s' : RefState τ ρ} (h : s'.pc = s.pc) (t : τ) (pc : RefPc ρ) :
    (s'.goto t pc).pc = Function.update s.pc t pc := by
  rw [RefState.goto, h]

theorem LockInv.advance (h : LockInv s) (t : τ) : LockInv (s.advance t) := by
  have hl := h.pcs t
  unfold RefState.advance
  cases hp : s.pc t with
  | idle => exact h
  | sharedRead ref =>
      simp only
      split
      · exact h
      · next hlow =>
          refine h.goto rfl rfl (fun _ => by rw [hp]; rfl) (fun _ => by rw [hp]; rfl) ?_ h.aligned
          rw [ge_iff_le, BitVec.le_def, toNat_and_lockMask] at hlow
          exact Nat.lt_of_not_le hlow
  | sharedExchange ref w =>
      simp only
      split
      · next hw => exact h.sharedExchange hp hw
      · exact h.goto rfl rfl (fun _ => by rw [hp]; rfl) (fun _ => by rw [hp]; rfl) trivial h.aligned
  | referenceLoad ref =>
      simp only
      split
      · next hne =>
          exact h.goto rfl rfl (fun _ => by rw [hp]; rfl) (fun _ => by rw [hp]; rfl) ⟨rfl, hne⟩
            h.aligned
      · exact h.goto rfl rfl (fun _ => by rw [hp]; rfl) (fun _ => by rw [hp]; rfl) trivial h.aligned
  | referenceIncrement ref o =>
      rw [hp] at hl
      refine h.goto (goto_pc (kphReferenceObject_pc s t o) t _) (kphReferenceObject_word s t o)
        (fun _ => by rw [hp]; rfl) (fun _ => by rw [hp]; rfl) trivial (aligned_take h.aligned t ?_)
      rw [hl.1]
      exact tag_objectOf _
  | sharedRelease ref o before => exact h.sharedRelease hp
  | assignIncrement ref o =>
      rw [hp] at hl
      exact h.goto (goto_pc (kphReferenceObject_pc s t o) t _) (kphReferenceObject_word s t o)
        (fun _ => by rw [hp]; rfl) (fun _ => by rw [hp]; rfl) hl (aligned_take h.aligned t hl)
  | exclusiveRead ref o assign =>
      rw [hp] at hl
      simp only
      split
      · exact h
      · next hclear =>
          refine h.goto rfl rfl (fun _ => by rw [hp]; rfl) (fun _ => by rw [hp]; rfl)
            ⟨hl, and_flag_eq_zero.mp (not_ne_iff.mp hclear)⟩ h.aligned
  | exclusiveExchange ref o assign w =>
      simp only
      split
      · next hw => exact h.exclusiveExchange hp hw
      · rw [hp] at hl
        exact h.goto rfl rfl (fun _ => by rw [hp]; rfl) (fun _ => by rw [hp]; rfl) hl.1 h.aligned
  | exclusiveWait ref o assign read =>
      rw [hp] at hl
      simp only
      split
      · refine h.goto rfl rfl (fun _ => by rw [hp]; rfl) (fun _ => by rw [hp]; rfl)
          ⟨hl.1, fun hread => ?_⟩ h.aligned
        -- The count that was read is the number of shared holders.
        have hbits := h.bits ref
        have hfew := h.few ref
        have h₃ : tag 3 (s.word ref) = (s.word ref).toNat % 8 := rfl
        have h₄ : tag 4 (s.word ref) = (s.word ref).toNat % 16 := rfl
        omega
      · next hclear =>
          refine h.goto rfl rfl (fun _ => by rw [hp]; rfl) (fun _ => by rw [hp]; rfl)
            ⟨hl.1, hl.2 ?_⟩ h.aligned
          rw [← toNat_and_sharedMax, not_ne_iff.mp hclear]
          rfl
  | storeLoad ref o assign =>
      rw [hp] at hl
      exact h.goto rfl rfl (fun _ => by rw [hp]; rfl) (fun _ => by rw [hp]; rfl) ⟨hl.1, hl.2, rfl⟩
        h.aligned
  | storeExchange ref o assign previous => exact h.storeExchange hp
  | exclusiveRelease ref assign previous =>
      refine h.exclusiveRelease hp ?_
      split
      · exact .inl rfl
      · exact .inr rfl
  | dereference o =>
      exact h.goto (goto_pc (kphDereferenceObject_pc s t o) t _) (kphDereferenceObject_word s t o)
        (fun _ => by rw [hp]; rfl) (fun _ => by rw [hp]; rfl) trivial (aligned_give h.aligned t o)

theorem LockInv.of_eq {s s' : RefState τ ρ} (h : LockInv s) (hpc : s'.pc = s.pc)
    (hword : s'.word = s.word) (haligned : ∀ t o, 0 < s'.owned t o → tag 4 o = 0) :
    LockInv s' := by
  have hshares : s'.shares = s.shares := by
    funext ref
    rw [RefState.shares, hpc]
    rfl
  have hflags : s'.flags = s.flags := by
    funext ref
    rw [RefState.flags, hpc]
    rfl
  have hobject : s'.object = s.object := by
    funext ref
    rw [RefState.object, hword]
    rfl
  refine ⟨fun ref => ?_, fun ref => ?_, fun t => ?_, haligned⟩
  · rw [hword, hshares, hflags]
    exact h.bits ref
  · rw [hshares]
    exact h.few ref
  · rw [hpc, hshares, hobject]
    exact h.pcs t

theorem RefStep.lock {s s' : RefState τ ρ} (hstep : RefStep s s') (h : LockInv s) : LockInv s' := by
  cases hstep with
  | advance t => exact h.advance t
  | kphAtomicReferenceObject t ref hpc =>
      exact h.goto rfl rfl (fun _ => by rw [hpc]; rfl) (fun _ => by rw [hpc]; rfl) trivial h.aligned
  | kphAtomicAssignObjectReference t ref o hpc howned =>
      split
      · next hne =>
          exact h.goto rfl rfl (fun _ => by rw [hpc]; rfl) (fun _ => by rw [hpc]; rfl)
            (h.aligned t o (howned.resolve_left hne)) h.aligned
      · exact h.goto rfl rfl (fun _ => by rw [hpc]; rfl) (fun _ => by rw [hpc]; rfl)
          (show tag 4 (0 : ULongPtr) = 0 from rfl) h.aligned
  | kphAtomicMoveObjectReference t ref o hpc howned =>
      refine h.goto rfl rfl (fun _ => by rw [hpc]; rfl) (fun _ => by rw [hpc]; rfl) ?_ h.aligned
      rcases howned with rfl | hpos
      · rfl
      · exact h.aligned t o hpos
  | kphReferenceObject t o hpc howned hobject =>
      exact h.of_eq (kphReferenceObject_pc s t o) (kphReferenceObject_word s t o)
        (aligned_take h.aligned t (h.aligned t o howned))
  | kphDereferenceObject t o hpc howned hobject =>
      exact h.goto rfl rfl (fun _ => by rw [hpc]; rfl) (fun _ => by rw [hpc]; rfl) trivial h.aligned
  | create t o hpc hobject haligned hfree =>
      refine h.of_eq (take_pc s t o) (take_word s t o) (aligned_take h.aligned t ?_)
      rw [← toNat_and_lockMask, haligned]
      rfl
  | delete o hmem => exact h.of_eq rfl rfl h.aligned

/-! ## Counts -/

/-- What the place a thread is at says of the references it owns. -/
def RefPc.Owns (owned : ULongPtr → Nat) : RefPc ρ → Prop
  | .sharedRelease _ o before => o = 0 ∨ 1 ≤ before
  | .assignIncrement _ o => o ≠ 0 ∧ 0 < owned o
  | .exclusiveRead _ o _ => o = 0 ∨ 0 < owned o
  | .exclusiveExchange _ o _ _ => o = 0 ∨ 0 < owned o
  | .exclusiveWait _ o _ _ => o = 0 ∨ 0 < owned o
  | .storeLoad _ o _ => o = 0 ∨ 0 < owned o
  | .storeExchange _ o _ _ => o = 0 ∨ 0 < owned o
  | .exclusiveRelease _ _ previous => previous = 0 ∨ 0 < owned previous
  | .dereference o => o ≠ 0 ∧ 0 < owned o
  | _ => True

variable [Fintype ρ]

/-- How many references to an object the threads own. -/
def RefState.ownedTotal (s : RefState τ ρ) (o : ULongPtr) : Nat :=
  total (fun owned : ULongPtr → Nat => owned o) s.owned

def RefState.holders (s : RefState τ ρ) (o : ULongPtr) : Nat :=
  total (fun w => if objectOf w = o then 1 else 0) s.word

/-- The objects that are to be deleted are those whose count is zero, each of them once,
and an object that was created and not deleted is live. -/
structure LifeInv (pointerCount : ULongPtr → Int) (live : ULongPtr → Bool)
    (condemned : List ULongPtr) (created deleted : ULongPtr → Nat) : Prop where
  dead : ∀ o, live o = false → pointerCount o = 0
  waiting : ∀ o, o ∈ condemned ↔ live o = true ∧ pointerCount o = 0
  nodup : condemned.Nodup
  lives : ∀ o, created o = deleted o + if live o then 1 else 0
  null : live 0 = false

structure CountInv (s : RefState τ ρ) : Prop where
  counts : ∀ o, o ≠ 0 → s.pointerCount o = s.ownedTotal o + s.holders o
  pcs : ∀ t, (s.pc t).Owns (s.owned t)
  life : LifeInv s.pointerCount s.live s.condemned s.created s.deleted

variable {pointerCount : ULongPtr → Int} {live : ULongPtr → Bool} {condemned : List ULongPtr} {created deleted : ULongPtr → Nat}

theorem LifeInv.live_of_pos
    (h : LifeInv pointerCount live condemned created deleted)
    (hpos : 1 ≤ pointerCount o) : live o = true := by
  by_contra hdead
  have := h.dead o (Bool.eq_false_of_not_eq_true hdead)
  omega

/-- The count of a referenced object changes, and it is condemned if that was the last
reference. -/
theorem LifeInv.count
    (h : LifeInv pointerCount live condemned created deleted) {n : Int}
    (hpos : 1 ≤ pointerCount o) (hn : 0 ≤ n) :
    LifeInv (Function.update pointerCount o n) live (if n > 0 then condemned else o :: condemned)
      created deleted := by
  have hlive := h.live_of_pos hpos
  have hnew : o ∉ condemned := by
    rw [h.waiting o]
    rintro ⟨-, hzero⟩
    omega
  refine ⟨fun o' hdead => ?_, fun o' => ?_, ?_, h.lives, h.null⟩
  · have hne : o' ≠ o := by
      rintro rfl
      cases hlive.symm.trans hdead
    rw [Function.update_of_ne hne]
    exact h.dead o' hdead
  · by_cases heq : o' = o
    · subst heq
      rw [Function.update_self]
      split
      · exact ⟨fun hmem => absurd hmem hnew, fun ⟨_, hzero⟩ => by omega⟩
      · exact ⟨fun _ => ⟨hlive, by omega⟩, fun _ => List.mem_cons_self⟩
    · rw [Function.update_of_ne heq, ← h.waiting o']
      split
      · rfl
      · rw [List.mem_cons]
        exact ⟨fun hmem => hmem.resolve_left heq, .inr⟩
  · split
    · exact h.nodup
    · exact List.nodup_cons.mpr ⟨hnew, h.nodup⟩

theorem LifeInv.create
    (h : LifeInv pointerCount live condemned created deleted) (ho : o ≠ 0)
    (hfree : live o = false) :
    LifeInv (Function.update pointerCount o 1) (Function.update live o true) condemned
      (Function.update created o (created o + 1)) deleted := by
  refine ⟨fun o' hdead => ?_, fun o' => ?_, h.nodup, fun o' => ?_,
    (Function.update_of_ne ho.symm ..).trans h.null⟩
  · by_cases heq : o' = o
    · subst heq
      rw [Function.update_self] at hdead
      cases hdead
    · rw [Function.update_of_ne heq] at hdead ⊢
      exact h.dead o' hdead
  · rw [h.waiting o']
    by_cases heq : o' = o
    · subst heq
      rw [Function.update_self, Function.update_self, hfree]
      simp
    · rw [Function.update_of_ne heq, Function.update_of_ne heq]
  · have hlives := h.lives o'
    by_cases heq : o' = o
    · subst heq
      rw [Function.update_self, Function.update_self, hlives, hfree]
      rfl
    · rw [Function.update_of_ne heq, Function.update_of_ne heq]
      exact hlives

theorem LifeInv.delete
    (h : LifeInv pointerCount live condemned created deleted)
    (hmem : o ∈ condemned) :
    LifeInv pointerCount (Function.update live o false) (condemned.erase o) created
      (Function.update deleted o (deleted o + 1)) := by
  obtain ⟨hlive, hzero⟩ := (h.waiting o).mp hmem
  have ho : o ≠ 0 := by
    rintro rfl
    cases hlive.symm.trans h.null
  refine ⟨fun o' hdead => ?_, fun o' => ?_, h.nodup.erase o, fun o' => ?_,
    (Function.update_of_ne ho.symm ..).trans h.null⟩
  · by_cases heq : o' = o
    · rw [heq]
      exact hzero
    · rw [Function.update_of_ne heq] at hdead
      exact h.dead o' hdead
  · rw [h.nodup.mem_erase_iff, h.waiting o']
    by_cases heq : o' = o
    · subst heq
      simp
    · simp [heq]
  · have hlives := h.lives o'
    by_cases heq : o' = o
    · subst heq
      rw [Function.update_self, Function.update_self, hlives, hlive]
      rfl
    · rw [Function.update_of_ne heq, Function.update_of_ne heq]
      exact hlives

theorem owns_goto {s s' : RefState τ ρ}
    (h : ∀ t, (s.pc t).Owns (s.owned t)) (hpc : s'.pc = Function.update s.pc t pc)
    (howned : ∀ t', t' ≠ t → s'.owned t' = s.owned t') (hself : pc.Owns (s'.owned t)) :
    ∀ t', (s'.pc t').Owns (s'.owned t') := by
  intro t'
  rw [hpc]
  by_cases heq : t' = t
  · subst heq
    rwa [Function.update_self]
  · rw [Function.update_of_ne heq, howned t' heq]
    exact h t'

theorem ownedTotal_take (s : RefState τ ρ) (t : τ) (o : ULongPtr) {o' : ULongPtr} (ho' : o' ≠ 0) :
    (s.take t o).ownedTotal o' = s.ownedTotal o' + if o' = o then 1 else 0 := by
  by_cases hnull : o = 0
  · rw [RefState.take, if_pos hnull, if_neg fun heq => ho' (heq.trans hnull)]
    rfl
  have hsum := total_update (fun owned : ULongPtr → Nat => owned o') s.owned t
    (Function.update (s.owned t) o (s.owned t o + 1))
  have howned : (s.take t o).owned =
      Function.update s.owned t (Function.update (s.owned t) o (s.owned t o + 1)) := by
    rw [RefState.take, if_neg hnull]
  rw [← howned, ← RefState.ownedTotal, ← RefState.ownedTotal] at hsum
  by_cases heq : o' = o
  · subst heq
    rw [Function.update_self] at hsum
    rw [if_pos rfl]
    omega
  · rw [Function.update_of_ne heq] at hsum
    rw [if_neg heq]
    omega

theorem ownedTotal_give (s : RefState τ ρ) (t : τ) {o o' : ULongPtr} (ho' : o' ≠ 0)
    (hpos : o = 0 ∨ 0 < s.owned t o) :
    (s.give t o).ownedTotal o' + (if o' = o then 1 else 0) = s.ownedTotal o' := by
  by_cases hnull : o = 0
  · rw [RefState.give, if_pos hnull, if_neg fun heq => ho' (heq.trans hnull)]
    rfl
  have hpos := hpos.resolve_left hnull
  have hsum := total_update (fun owned : ULongPtr → Nat => owned o') s.owned t
    (Function.update (s.owned t) o (s.owned t o - 1))
  have howned : (s.give t o).owned =
      Function.update s.owned t (Function.update (s.owned t) o (s.owned t o - 1)) := by
    rw [RefState.give, if_neg hnull]
  rw [← howned, ← RefState.ownedTotal, ← RefState.ownedTotal] at hsum
  by_cases heq : o' = o
  · subst heq
    rw [Function.update_self] at hsum
    rw [if_pos rfl]
    omega
  · rw [Function.update_of_ne heq] at hsum
    rw [if_neg heq]
    omega

theorem CountInv.pos (h : CountInv s) (ho : o ≠ 0)
    (href : (∃ t, 0 < s.owned t o) ∨ ∃ ref, s.object ref = o) : 1 ≤ s.pointerCount o := by
  have hcount := h.counts o ho
  rcases href with ⟨t, hpos⟩ | ⟨ref, hobject⟩
  · have := le_total (fun owned : ULongPtr → Nat => owned o) s.owned t
    rw [← RefState.ownedTotal] at this
    omega
  · have := le_total (fun w => if objectOf w = o then 1 else 0) s.word ref
    rw [← RefState.holders, if_pos (show objectOf (s.word ref) = o from hobject)] at this
    omega

theorem CountInv.goto {s s' : RefState τ ρ} (h : CountInv s)
    (hpc : s'.pc = Function.update s.pc t pc) (hobject : s'.object = s.object)
    (howned : s'.owned = s.owned) (hcount : s'.pointerCount = s.pointerCount)
    (hlive : s'.live = s.live) (hcondemned : s'.condemned = s.condemned)
    (hcreated : s'.created = s.created) (hdeleted : s'.deleted = s.deleted)
    (hself : pc.Owns (s.owned t)) : CountInv s' := by
  have hholders : ∀ o, s'.holders o = s.holders o := by
    intro o
    refine total_congr fun ref => ?_
    have : objectOf (s'.word ref) = objectOf (s.word ref) := congrFun hobject ref
    rw [this]
  refine ⟨fun o ho => ?_, ?_, ?_⟩
  · rw [hcount, hholders, RefState.ownedTotal, howned]
    exact h.counts o ho
  · exact owns_goto h.pcs hpc (fun t' _ => by rw [howned]) (by rwa [howned])
  · rw [hcount, hlive, hcondemned, hcreated, hdeleted]
    exact h.life

theorem CountInv.reference (h : CountInv s) (t : τ) (ho : o ≠ 0)
    (hpos : 1 ≤ s.pointerCount o)
    (hself : ∀ owned : ULongPtr → Nat, (∀ o', s.owned t o' ≤ owned o') → 0 < owned o →
      pc.Owns owned) :
    CountInv ((s.kphReferenceObject t o).goto t pc) := by
  have hholders : ∀ o', ((s.kphReferenceObject t o).goto t pc).holders o' = s.holders o' := by
    intro o'
    rw [RefState.holders, RefState.goto, kphReferenceObject_word]
    rfl
  refine ⟨fun o' ho' => ?_, ?_, ?_⟩
  · have hsum := ownedTotal_take s t o ho'
    have hcount := h.counts o' ho'
    rw [hholders]
    show Function.update s.pointerCount o (s.pointerCount o + 1) o' =
      ((s.take t o).ownedTotal o' : Int) + _
    rw [hsum]
    by_cases heq : o' = o
    · subst heq
      rw [Function.update_self, if_pos rfl]
      omega
    · rw [Function.update_of_ne heq, if_neg heq]
      omega
  · refine owns_goto h.pcs (goto_pc (kphReferenceObject_pc s t o) t pc)
      (fun t' hne => take_owned_of_ne s hne o) ?_
    refine hself _ (fun o' => ?_) ?_
    · show _ ≤ (s.take t o).owned t o'
      rw [take_owned s t t o' ho]
      omega
    · show 0 < (s.take t o).owned t o
      rw [take_owned s t t o ho, if_pos ⟨rfl, rfl⟩]
      omega
  · have hlife := h.life.count hpos (show 0 ≤ s.pointerCount o + 1 by omega)
    rw [if_pos (by omega)] at hlife
    simpa only [RefState.goto, RefState.kphReferenceObject, RefState.take, if_neg ho] using hlife

theorem CountInv.dereference (h : CountInv s) (ho : o ≠ 0)
    (howned : 0 < s.owned t o) : CountInv ((s.kphDereferenceObject t o).goto t .idle) := by
  have hpos := h.pos ho (.inl ⟨t, howned⟩)
  have hholders : ∀ o', ((s.kphDereferenceObject t o).goto t .idle).holders o' = s.holders o' := by
    intro o'
    rw [RefState.holders, RefState.goto, kphDereferenceObject_word]
    rfl
  refine ⟨fun o' ho' => ?_, ?_, ?_⟩
  · have hsum := ownedTotal_give s t ho' (.inr howned)
    have hcount := h.counts o' ho'
    rw [hholders]
    show Function.update s.pointerCount o (s.pointerCount o - 1) o' =
      ((s.give t o).ownedTotal o' : Int) + _
    by_cases heq : o' = o
    · subst heq
      rw [if_pos rfl] at hsum
      rw [Function.update_self]
      omega
    · rw [if_neg heq] at hsum
      rw [Function.update_of_ne heq]
      omega
  · exact owns_goto h.pcs (goto_pc (kphDereferenceObject_pc s t o) t _)
      (fun t' hne => give_owned_of_ne s hne o) trivial
  · have hlife := h.life.count hpos (show 0 ≤ s.pointerCount o - 1 by omega)
    simpa only [RefState.goto, RefState.kphDereferenceObject, RefState.give, if_neg ho] using hlife

theorem CountInv.storeExchange {o previous : ULongPtr}
    {assign : Bool} (h : CountInv s) (hlock : LockInv s)
    (hp : s.pc t = .storeExchange ref o assign previous) :
    CountInv ((((s.setWord ref (o ||| atomicObjectRefExclusiveFlag)).give t o).take t
      previous).goto t (.exclusiveRelease ref assign previous)) := by
  have hl := hlock.pcs t
  have hown := h.pcs t
  rw [hp] at hl hown
  obtain ⟨haligned, hnone, hprevious⟩ := hl
  have hnew : objectOf (o ||| atomicObjectRefExclusiveFlag) = o := by
    rw [(or_flag_bits (w := o) (by omega)).2, objectOf_of_aligned haligned]
  generalize hs₁ : s.setWord ref (o ||| atomicObjectRefExclusiveFlag) = s₁
  have howned₁ : s₁.owned = s.owned := by rw [← hs₁]; rfl
  have hpc₁ : s₁.pc = s.pc := by rw [← hs₁]; rfl
  have hsame : ((s₁.give t o).take t previous).pointerCount = s.pointerCount ∧
      ((s₁.give t o).take t previous).live = s.live ∧
      ((s₁.give t o).take t previous).condemned = s.condemned ∧
      ((s₁.give t o).take t previous).created = s.created ∧
      ((s₁.give t o).take t previous).deleted = s.deleted := by
    rw [← hs₁]
    unfold RefState.take RefState.give
    split <;> split <;> exact ⟨rfl, rfl, rfl, rfl, rfl⟩
  obtain ⟨hcount, hlive, hc, hcr, hdel⟩ := hsame
  refine ⟨fun o' ho' => ?_, ?_, ?_⟩
  · -- The word and the thread exchange their references.
    have htake := ownedTotal_take (s₁.give t o) t previous ho'
    have hgive := ownedTotal_give s₁ t ho' (show o = 0 ∨ 0 < s₁.owned t o by rwa [howned₁])
    have hholders := total_update (fun w => if objectOf w = o' then 1 else 0) s.word ref
      (o ||| atomicObjectRefExclusiveFlag)
    have hword : ((s₁.give t o).take t previous).word =
        Function.update s.word ref (o ||| atomicObjectRefExclusiveFlag) := by
      rw [take_word, give_word, ← hs₁]
      rfl
    have hown₁ : s₁.ownedTotal o' = s.ownedTotal o' := by rw [RefState.ownedTotal, howned₁]; rfl
    have hold := h.counts o' ho'
    show ((s₁.give t o).take t previous).pointerCount o' =
      ((s₁.give t o).take t previous).ownedTotal o' + ((s₁.give t o).take t previous).holders o'
    rw [hnew, ← hword, ← RefState.holders, ← RefState.holders,
      show objectOf (s.word ref) = previous from hprevious.symm] at hholders
    simp only [eq_comm (b := o')] at hholders
    rw [hcount]
    omega
  · refine owns_goto h.pcs (goto_pc ((take_pc _ t previous).trans ((give_pc s₁ t o).trans hpc₁)) t _)
      (fun t' hne => ?_) ?_
    · show ((s₁.give t o).take t previous).owned t' = _
      rw [take_owned_of_ne _ hne, give_owned_of_ne _ hne, howned₁]
    · show previous = 0 ∨ 0 < ((s₁.give t o).take t previous).owned t previous
      by_cases hnull : previous = 0
      · exact .inl hnull
      · rw [take_owned _ t t previous hnull, if_pos ⟨rfl, rfl⟩]
        exact .inr (Nat.succ_pos _)
  · show LifeInv ((s₁.give t o).take t previous).pointerCount
      ((s₁.give t o).take t previous).live ((s₁.give t o).take t previous).condemned
      ((s₁.give t o).take t previous).created ((s₁.give t o).take t previous).deleted
    rw [hcount, hlive, hc, hcr, hdel]
    exact h.life

theorem CountInv.create (h : CountInv s)
    (hpc : s.pc t = .idle) (ho : o ≠ 0) (hfree : s.live o = false) :
    CountInv { s.take t o with
      pointerCount := Function.update s.pointerCount o 1
      live := Function.update s.live o true
      created := Function.update s.created o (s.created o + 1) } := by
  have hzero := h.life.dead o hfree
  refine ⟨fun o' ho' => ?_, fun t' => ?_, ?_⟩
  · have hsum := ownedTotal_take s t o ho'
    have hcount := h.counts o' ho'
    show Function.update s.pointerCount o 1 o' =
      ((s.take t o).ownedTotal o' : Int) + (s.take t o).holders o'
    have hholders : (s.take t o).holders o' = s.holders o' := by
      rw [RefState.holders, take_word]
      rfl
    rw [hsum, hholders]
    by_cases heq : o' = o
    · subst heq
      rw [Function.update_self, if_pos rfl]
      omega
    · rw [Function.update_of_ne heq, if_neg heq]
      omega
  · show ((s.take t o).pc t').Owns ((s.take t o).owned t')
    rw [take_pc]
    by_cases heq : t' = t
    · subst heq
      rw [hpc]
      trivial
    · rw [take_owned_of_ne s heq]
      exact h.pcs t'
  · have hcondemned : (s.take t o).condemned = s.condemned ∧ (s.take t o).deleted = s.deleted := by
      rw [RefState.take, if_neg ho]
      exact ⟨rfl, rfl⟩
    show LifeInv (Function.update s.pointerCount o 1) (Function.update s.live o true)
      (s.take t o).condemned (Function.update s.created o (s.created o + 1)) (s.take t o).deleted
    rw [hcondemned.1, hcondemned.2]
    exact h.life.create ho hfree

theorem CountInv.delete (h : CountInv s)
    (hmem : o ∈ s.condemned) :
    CountInv { s with
      condemned := s.condemned.erase o
      live := Function.update s.live o false
      deleted := Function.update s.deleted o (s.deleted o + 1) } := by
  exact ⟨h.counts, h.pcs, h.life.delete hmem⟩

theorem CountInv.advance (h : CountInv s) (hlock : LockInv s) (t : τ) :
    CountInv (s.advance t) := by
  have hl := hlock.pcs t
  have ho := h.pcs t
  unfold RefState.advance
  cases hp : s.pc t with
  | idle => exact h
  | sharedRead ref =>
      simp only
      split
      · exact h
      · exact h.goto rfl rfl rfl rfl rfl rfl rfl rfl trivial
  | sharedExchange ref w =>
      rw [hp] at hl
      simp only
      split
      · next hw =>
          refine h.goto rfl ?_ rfl rfl rfl rfl rfl rfl trivial
          funext ref'
          exact object_update (hw ▸ (add_one_bits hl).2) ref'
      · exact h.goto rfl rfl rfl rfl rfl rfl rfl rfl trivial
  | referenceLoad ref =>
      simp only
      split
      · exact h.goto rfl rfl rfl rfl rfl rfl rfl rfl trivial
      · exact h.goto rfl rfl rfl rfl rfl rfl rfl rfl (.inl rfl)
  | referenceIncrement ref o =>
      -- The word holds the object while the lock is held.
      rw [hp] at hl
      have hpos := h.pos hl.2 (.inr ⟨ref, hl.1.symm⟩)
      exact h.reference t hl.2 hpos fun _ _ _ => .inr hpos
  | sharedRelease ref o before =>
      have hheld : 1 ≤ s.shares ref := by
        have := le_total (RefPc.shares ref) s.pc t
        rwa [hp, RefPc.shares, if_pos rfl] at this
      have hbits := hlock.bits ref
      refine h.goto rfl ?_ rfl rfl rfl rfl rfl rfl trivial
      funext ref'
      exact object_update (sub_one_bits (w := s.word ref) (by omega)).2 ref'
  | assignIncrement ref o =>
      rw [hp] at ho
      exact h.reference t ho.1 (h.pos ho.1 (.inl ⟨t, ho.2⟩)) fun _ _ hpos => .inr hpos
  | exclusiveRead ref o assign =>
      rw [hp] at ho
      simp only
      split
      · exact h
      · exact h.goto rfl rfl rfl rfl rfl rfl rfl rfl ho
  | exclusiveExchange ref o assign w =>
      rw [hp] at hl ho
      simp only
      split
      · next hw =>
          refine h.goto rfl ?_ rfl rfl rfl rfl rfl rfl ho
          funext ref'
          exact object_update (hw ▸ (or_flag_bits hl.2).2) ref'
      · exact h.goto rfl rfl rfl rfl rfl rfl rfl rfl ho
  | exclusiveWait ref o assign read =>
      rw [hp] at ho
      simp only
      split
      · exact h.goto rfl rfl rfl rfl rfl rfl rfl rfl ho
      · exact h.goto rfl rfl rfl rfl rfl rfl rfl rfl ho
  | storeLoad ref o assign =>
      rw [hp] at ho
      exact h.goto rfl rfl rfl rfl rfl rfl rfl rfl ho
  | storeExchange ref o assign previous => exact h.storeExchange hlock hp
  | exclusiveRelease ref assign previous =>
      rw [hp] at ho
      have hflag : 1 ≤ s.flags ref := by
        have := le_total (RefPc.flags ref) s.pc t
        rwa [hp, RefPc.flags, if_pos rfl] at this
      have hbits := hlock.bits ref
      refine h.goto rfl ?_ rfl rfl rfl rfl rfl rfl ?_
      · funext ref'
        exact object_update (and_not_flag_bits (w := s.word ref) (by omega)).2 ref'
      · split
        · next hassign => exact ⟨hassign.2, ho.resolve_left hassign.2⟩
        · trivial
  | dereference o =>
      rw [hp] at ho
      exact h.dereference ho.1 ho.2

theorem RefStep.count {s s' : RefState τ ρ} (hstep : RefStep s s') (hlock : LockInv s)
    (h : CountInv s) : CountInv s' := by
  cases hstep with
  | advance t => exact h.advance hlock t
  | kphAtomicReferenceObject t ref hpc => exact h.goto rfl rfl rfl rfl rfl rfl rfl rfl trivial
  | kphAtomicAssignObjectReference t ref o hpc howned =>
      refine h.goto rfl rfl rfl rfl rfl rfl rfl rfl ?_
      split
      · next hne => exact ⟨hne, howned.resolve_left hne⟩
      · exact .inl rfl
  | kphAtomicMoveObjectReference t ref o hpc howned =>
      exact h.goto rfl rfl rfl rfl rfl rfl rfl rfl howned
  | kphReferenceObject t o hpc howned hobject =>
      have hstay : (s.kphReferenceObject t o).goto t .idle = s.kphReferenceObject t o := by
        have hpc' : (s.kphReferenceObject t o).pc t = .idle := by
          rw [kphReferenceObject_pc]
          exact hpc
        rw [RefState.goto, ← hpc', Function.update_eq_self]
      rw [← hstay]
      exact h.reference t hobject (h.pos hobject (.inl ⟨t, howned⟩)) fun _ _ _ => trivial
  | kphDereferenceObject t o hpc howned hobject =>
      exact h.goto rfl rfl rfl rfl rfl rfl rfl rfl ⟨hobject, howned⟩
  | create t o hpc hobject haligned hfree => exact h.create hpc hobject hfree
  | delete o hmem => exact h.delete hmem

/-! ## Every reachable state -/

/-- The thread is between the acquisition of the exclusive lock and its release. -/
def RefPc.HoldsExclusive (ref : ρ) : RefPc ρ → Prop
  | .storeLoad r _ _ => r = ref
  | .storeExchange r _ _ _ => r = ref
  | .exclusiveRelease r _ _ => r = ref
  | _ => False

def RefPc.HoldsShared (ref : ρ) (pc : RefPc ρ) : Prop := pc.shares ref = 1

structure RefExact (s : RefState τ ρ) : Prop where
  /-- A word is its address with the lock bits: the threads that hold the lock shared, at
  most seven, and the exclusive flag. -/
  word : ∀ ref, (s.word ref).toNat = (s.object ref).toNat + (8 * s.flags ref + s.shares ref) ∧
    s.flags ref ≤ 1 ∧ s.shares ref ≤ 7
  exclusion : ∀ ref t t', (s.pc t).HoldsExclusive ref →
    ¬ (s.pc t').HoldsShared ref ∧ ((s.pc t').HoldsExclusive ref → t' = t)
  counts : ∀ o, o ≠ 0 → s.pointerCount o = s.ownedTotal o + s.holders o
  /-- What was created was deleted once, or is live; and what is live is waiting for its
  deletion when its count is zero. -/
  deletions : ∀ o, s.created o = s.deleted o + if s.live o then 1 else 0
  waiting : s.condemned.Nodup ∧ ∀ o, o ∈ s.condemned ↔ s.live o = true ∧ s.pointerCount o = 0
  /-- `KphAtomicReferenceObject` increments a count that is positive, and returns null or
  an object whose count was. -/
  increments : ∀ t ref o, s.pc t = .referenceIncrement ref o → o ≠ 0 ∧ 1 ≤ s.pointerCount o
  returns : ∀ t ref o before, s.pc t = .sharedRelease ref o before → o = 0 ∨ 1 ≤ before

structure RefStepExact (s s' : RefState τ ρ) : Prop where
  /-- Only an exchange changes the address in a word, and to the object it stores. -/
  address : ∀ ref, s'.object ref = s.object ref ∨ ∃ t o assign previous,
    s.pc t = .storeExchange ref o assign previous ∧ s'.object ref = o
  /-- A deletion is of an object that no word holds and no thread owns. -/
  deletion : ∀ o, s'.deleted o = s.deleted o ∨
    (s'.deleted o = s.deleted o + 1 ∧ s.live o = true ∧ s.holders o = 0 ∧ s.ownedTotal o = 0)

theorem RefPc.HoldsExclusive.flags (h : pc.HoldsExclusive ref) :
    pc.flags ref = 1 := by
  cases pc <;> first | exact if_pos h | cases h

theorem RefPc.HoldsExclusive.shares (h : pc.HoldsExclusive ref)
    {object : ρ → ULongPtr} {shares : ρ → Nat} (hl : pc.Locked object shares) : shares ref = 0 := by
  cases pc with
  | storeLoad r o assign => exact (show r = ref from h) ▸ hl.2
  | storeExchange r o assign previous => exact (show r = ref from h) ▸ hl.2.1
  | exclusiveRelease r assign previous => exact (show r = ref from h) ▸ hl
  | _ => cases h

theorem CountInv.exact (h : CountInv s) (hlock : LockInv s) : RefExact s := by
  refine ⟨fun ref => ⟨?_, hlock.flags_le ref, hlock.few ref⟩, fun ref t t' hex => ⟨?_, ?_⟩,
    h.counts, h.life.lives, ⟨h.life.nodup, h.life.waiting⟩, ?_, ?_⟩
  · have hword := toNat_eq 4 (s.word ref)
    have hbits := hlock.bits ref
    rw [RefState.object, toNat_objectOf]
    omega
  · intro hshared
    have hzero : total (RefPc.shares ref) s.pc = 0 := hex.shares (hlock.pcs t)
    have := eq_zero_of_total hzero t'
    rw [RefPc.HoldsShared] at hshared
    omega
  · intro hex'
    by_contra hne
    have hle := hlock.flags_le ref
    have hadd := add_le_total (RefPc.flags ref) s.pc hne
    rw [hex.flags, hex'.flags, ← RefState.flags] at hadd
    omega
  · intro t ref o hp
    have hl := hlock.pcs t
    rw [hp] at hl
    exact ⟨hl.2, h.pos hl.2 (.inr ⟨ref, hl.1.symm⟩)⟩
  · intro t ref o before hp
    have ho := h.pcs t
    rwa [hp] at ho

theorem LockInv.advance_object (h : LockInv s) (t : τ) (ref : ρ) :
    (s.advance t).object ref = s.object ref ∨ ∃ o assign previous,
      s.pc t = .storeExchange ref o assign previous ∧ (s.advance t).object ref = o := by
  have hl := h.pcs t
  unfold RefState.advance
  cases hp : s.pc t with
  | sharedExchange r w =>
      rw [hp] at hl
      simp only
      split
      · next hw => exact .inl (object_update (hw ▸ (add_one_bits hl).2) ref)
      · exact .inl rfl
  | sharedRelease r o before =>
      have hheld : 1 ≤ s.shares r := by
        have := le_total (RefPc.shares r) s.pc t
        rwa [hp, RefPc.shares, if_pos rfl] at this
      have hbits := h.bits r
      exact .inl (object_update (sub_one_bits (w := s.word r) (by omega)).2 ref)
  | exclusiveExchange r o assign w =>
      rw [hp] at hl
      simp only
      split
      · next hw => exact .inl (object_update (hw ▸ (or_flag_bits hl.2).2) ref)
      · exact .inl rfl
  | exclusiveRelease r assign previous =>
      have hflag : 1 ≤ s.flags r := by
        have := le_total (RefPc.flags r) s.pc t
        rwa [hp, RefPc.flags, if_pos rfl] at this
      have hbits := h.bits r
      exact .inl (object_update (and_not_flag_bits (w := s.word r) (by omega)).2 ref)
  | storeExchange r o assign previous =>
      rw [hp] at hl
      simp only [RefState.object, RefState.goto, take_word, give_word, RefState.setWord]
      by_cases heq : ref = r
      · subst heq
        refine .inr ⟨o, assign, previous, rfl, ?_⟩
        rw [Function.update_self, (or_flag_bits (w := o) (by have := hl.1; omega)).2,
          objectOf_of_aligned hl.1]
      · rw [Function.update_of_ne heq]
        exact .inl rfl
  | referenceIncrement r o =>
      exact .inl (congrArg (fun word : ρ → ULongPtr => objectOf (word ref))
        (kphReferenceObject_word s t o))
  | assignIncrement r o =>
      exact .inl (congrArg (fun word : ρ → ULongPtr => objectOf (word ref))
        (kphReferenceObject_word s t o))
  | dereference o =>
      exact .inl (congrArg (fun word : ρ → ULongPtr => objectOf (word ref))
        (kphDereferenceObject_word s t o))
  | idle => exact .inl rfl
  | storeLoad r o assign => exact .inl rfl
  | sharedRead r =>
      refine .inl ?_
      simp only
      split <;> rfl
  | referenceLoad r =>
      refine .inl ?_
      simp only
      split <;> rfl
  | exclusiveRead r o assign =>
      refine .inl ?_
      simp only
      split <;> rfl
  | exclusiveWait r o assign read =>
      refine .inl ?_
      simp only
      split <;> rfl

theorem take_deleted (s : RefState τ ρ) (t : τ) (o : ULongPtr) :
    (s.take t o).deleted = s.deleted := by
  unfold RefState.take
  split <;> rfl

theorem give_deleted (s : RefState τ ρ) (t : τ) (o : ULongPtr) :
    (s.give t o).deleted = s.deleted := by
  unfold RefState.give
  split <;> rfl

theorem advance_deleted (s : RefState τ ρ) (t : τ) : (s.advance t).deleted = s.deleted := by
  unfold RefState.advance
  cases s.pc t with
  | referenceIncrement ref o => exact take_deleted s t o
  | assignIncrement ref o => exact take_deleted s t o
  | dereference o => exact give_deleted s t o
  | storeExchange ref o assign previous =>
      exact (take_deleted _ t previous).trans (give_deleted _ t o)
  | idle => rfl
  | storeLoad ref o assign => rfl
  | sharedRelease ref o before => rfl
  | exclusiveRelease ref assign previous => rfl
  | _ =>
      simp only
      split <;> rfl

theorem RefStep.exact {s s' : RefState τ ρ} (hstep : RefStep s s') (hlock : LockInv s)
    (h : CountInv s) : RefStepExact s s' := by
  refine ⟨fun ref => ?_, fun o => ?_⟩
  · cases hstep with
    | advance t =>
        rcases hlock.advance_object t ref with hsame | ⟨o, assign, previous, hp, hobject⟩
        · exact .inl hsame
        · exact .inr ⟨t, o, assign, previous, hp, hobject⟩
    | kphReferenceObject t o =>
        exact .inl (congrArg (fun word : ρ → ULongPtr => objectOf (word ref))
          (kphReferenceObject_word s t o))
    | create t o =>
        exact .inl (congrArg (fun word : ρ → ULongPtr => objectOf (word ref)) (take_word s t o))
    | _ => exact .inl rfl
  · cases hstep with
    | advance t => exact .inl (congrFun (advance_deleted s t) o)
    | kphReferenceObject t object => exact .inl (congrFun (take_deleted s t object) o)
    | create t object => exact .inl (congrFun (take_deleted s t object) o)
    | delete object hmem =>
        by_cases heq : o = object
        · subst heq
          obtain ⟨hlive, hzero⟩ := (h.life.waiting o).mp hmem
          have hne : o ≠ 0 := by
            rintro rfl
            cases hlive.symm.trans h.life.null
          have hcount := h.counts o hne
          exact .inr ⟨Function.update_self .., hlive, by omega, by omega⟩
        · exact .inl (Function.update_of_ne heq ..)
    | _ => exact .inl rfl

theorem lockInv_start : LockInv (RefState.start : RefState τ ρ) := by
  refine ⟨fun ref => ?_, fun ref => ?_, fun t => trivial, fun t o hpos => ?_⟩
  · have hflags : (RefState.start : RefState τ ρ).flags ref = 0 := total_eq_zero fun _ => rfl
    have hshares : (RefState.start : RefState τ ρ).shares ref = 0 := total_eq_zero fun _ => rfl
    rw [hflags, hshares]
    rfl
  · exact (total_eq_zero fun _ => rfl).le.trans (Nat.zero_le 7)
  · cases hpos

theorem countInv_start : CountInv (RefState.start : RefState τ ρ) := by
  refine ⟨fun o ho => ?_, fun t => trivial, fun o _ => rfl, fun o => ?_, List.nodup_nil,
    fun o => rfl, rfl⟩
  · have howned : (RefState.start : RefState τ ρ).ownedTotal o = 0 := total_eq_zero fun _ => rfl
    have hnull : objectOf 0 ≠ o := ho.symm
    have hholders : (RefState.start : RefState τ ρ).holders o = 0 :=
      total_eq_zero fun _ => if_neg hnull
    rw [howned, hholders]
    rfl
  · simp [RefState.start]

theorem refInv_of_reachable (h : Relation.ReflTransGen RefStep .start s) :
    LockInv s ∧ CountInv s := by
  induction h with
  | refl => exact ⟨lockInv_start, countInv_start⟩
  | tail _ hstep ih => exact ⟨hstep.lock ih.1, hstep.count ih.1 ih.2⟩

/-- In every reachable state the lock bits, the counts and the deletions are exact, and so
they are in every step from it. -/
theorem atomicObjectRef_exact {s : RefState τ ρ} (h : Relation.ReflTransGen RefStep .start s) :
    RefExact s ∧ ∀ s', RefStep s s' → RefStepExact s s' := by
  obtain ⟨hlock, hcount⟩ := refInv_of_reachable h
  exact ⟨hcount.exact hlock, fun s' hstep => hstep.exact hlock hcount⟩

end

/-- A thread creates an object and moves it into a reference. -/
def movedState : RefState Unit Unit :=
  let created : RefState Unit Unit :=
    { RefState.start.take () 0x10 with
      pointerCount := Function.update (fun _ => 0) 0x10 1
      live := Function.update (fun _ => false) 0x10 true
      created := Function.update (fun _ => 0) 0x10 1 }
  (fun s => s.advance ())^[6] (created.goto () (.exclusiveRead () 0x10 false))

theorem movedState_reachable : Relation.ReflTransGen RefStep .start movedState := by
  refine .tail (.tail (.tail (.tail (.tail (.tail (.tail (.single (.create () 0x10 rfl ?_ rfl rfl))
    (.kphAtomicMoveObjectReference () () 0x10 rfl (.inr ?_))) (.advance ())) (.advance ()))
    (.advance ())) (.advance ())) (.advance ())) (.advance ())
  · decide
  · decide

theorem atomicObjectRef_exact_moved :
    movedState.word () = 0x10 ∧ movedState.pointerCount 0x10 = 1 ∧ RefExact movedState ∧
      ∀ s', RefStep movedState s' → RefStepExact movedState s' :=
  ⟨by decide, by decide, atomicObjectRef_exact movedState_reachable⟩

end SystemInformer.Driver
