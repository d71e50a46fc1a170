import SystemInformer.PhLib.Barrier
import SystemInformer.Lib.BitField
import SystemInformer.Lib.Census
import SystemInformer.Lib.Runs

/-!
# The barrier synchronises phases

A phase gathers the threads and releases them. While it gathers, nobody has left it: the
count is the number of threads that have arrived, and every thread has as many answers as
there were phases. The last arrival sets the waking flag, and now no thread can arrive:
whoever comes early for the next phase compares the word with a value without the flag. So
the arrived threads only become fewer, and the master clears the flag when it is alone,
which means that all the others have answered.

The answers of the threads tell the phases apart. In a phase that is over exactly one
thread, the master, has answered with true.
-/

set_option linter.unusedSectionVars false

namespace SystemInformer.PhLib

def BarrierPc.arrived : BarrierPc → Nat
  | .slave => 1
  | .leave => 1
  | .master => 1
  | .clear => 1
  | _ => 0

def BarrierPc.leaves : BarrierPc → Nat
  | .leave => 1
  | _ => 0

def BarrierPc.masters : BarrierPc → Nat
  | .master => 1
  | .clear => 1
  | _ => 0

def BarrierPc.clears : BarrierPc → Nat
  | .clear => 1
  | _ => 0

/-! ## The word -/

theorem and_waking (value : ULongPtr) :
    value &&& phBarrierWaking = 0 ↔ value.toNat < 2 ^ 63 := by
  refine (BitField.and_mask_eq_zero (k := 63) (w := 1) (by decide) value).trans ?_
  have hlt := value.isLt
  rw [BitField.field]
  omega

theorem toNat_barrierCount (value : ULongPtr) :
    (barrierCount value).toNat = value.toNat % 2 ^ 31 := by
  have h := BitField.toNat_shift_and (k := 0) (w := 31) (by decide) value
  rw [BitField.field, Nat.pow_zero, Nat.div_one] at h
  exact h

theorem toNat_barrierTarget (value : ULongPtr) :
    (barrierTarget value).toNat = value.toNat / 2 ^ 32 % 2 ^ 31 :=
  BitField.toNat_shift_and (k := 32) (w := 31) (by decide) value

section

variable {τ : Type} [Fintype τ] [DecidableEq τ]

namespace BarrierState

def arrived (s : BarrierState τ) : Nat := Census.total BarrierPc.arrived s.pc

def leaves (s : BarrierState τ) : Nat := Census.total BarrierPc.leaves s.pc

def masters (s : BarrierState τ) : Nat := Census.total BarrierPc.masters s.pc

def clears (s : BarrierState τ) : Nat := Census.total BarrierPc.clears s.pc

def calls (s : BarrierState τ) (t : τ) : Nat :=
  match s.pc t with
  | .idle => (s.answers t).length
  | _ => (s.answers t).length + 1

end BarrierState

/-- Where the threads are after `p` phases. -/
inductive BarrierPhase (s : BarrierState τ) (p : Nat) : Prop where
  | gathering (hvalue : s.value.toNat = s.arrived + Fintype.card τ * 2 ^ 32)
      (hroom : s.arrived < Fintype.card τ) (hleaves : s.leaves = 0) (hmasters : s.masters = 0)
      (hclears : s.clears = 0) (hanswers : ∀ t, (s.answers t).length = p)
  | releasing (hvalue : s.value.toNat = s.arrived + Fintype.card τ * 2 ^ 32 + 2 ^ 63)
      (hmaster : s.masters = 1) (hclears : s.clears = 0 ∨ s.arrived = 1)
      (hanswers : ∀ t, (s.answers t).length + (s.pc t).arrived = p + 1)
      (hslaves : ∀ t, (s.answers t)[p]? ≠ some true)

structure BarrierInv (s : BarrierState τ) (p : Nat) : Prop where
  phase : BarrierPhase s p
  done : ∀ k < p, ∃! t, (s.answers t)[k]? = some true

variable {t : τ}

theorem BarrierState.moved {s r : BarrierState τ} {pc : BarrierPc}
    (hpc : r.pc = Function.update s.pc t pc) :
    r.arrived + (s.pc t).arrived = s.arrived + pc.arrived ∧
      r.leaves + (s.pc t).leaves = s.leaves + pc.leaves ∧
      r.masters + (s.pc t).masters = s.masters + pc.masters ∧
      r.clears + (s.pc t).clears = s.clears + pc.clears := by
  have hmoved := fun weight : BarrierPc → Nat => Census.total_update weight s.pc t pc
  rw [← hpc] at hmoved
  exact ⟨hmoved BarrierPc.arrived, hmoved BarrierPc.leaves, hmoved BarrierPc.masters,
    hmoved BarrierPc.clears⟩

theorem BarrierPc.arrived_le_one (pc : BarrierPc) : pc.arrived ≤ 1 := by
  cases pc <;> simp [BarrierPc.arrived]

theorem BarrierState.arrived_le (s : BarrierState τ) : s.arrived ≤ Fintype.card τ :=
  Census.total_le_card BarrierPc.arrived_le_one s.pc

theorem BarrierState.masters_add_leaves_le (s : BarrierState τ) :
    s.masters + s.leaves ≤ s.arrived ∧ s.clears ≤ s.masters := by
  have hsum : s.masters + s.leaves =
      Census.total (fun pc => BarrierPc.masters pc + BarrierPc.leaves pc) s.pc :=
    (Census.total_add _ _ _).symm
  rw [hsum]
  refine ⟨Census.total_mono (fun pc => ?_) s.pc, Census.total_mono (fun pc => ?_) s.pc⟩
  · cases pc <;> simp [BarrierPc.arrived, BarrierPc.masters, BarrierPc.leaves]
  · cases pc <;> simp [BarrierPc.masters, BarrierPc.clears]

variable {s : BarrierState τ} {p : Nat}

theorem BarrierInv.goto {old pc : BarrierPc}
    (h : BarrierInv s p) (hpc : s.pc t = old) (harrived : pc.arrived = old.arrived)
    (hleaves : pc.leaves = old.leaves) (hmasters : pc.masters = old.masters)
    (hclears : pc.clears = old.clears) : BarrierInv (s.goto t pc) p := by
  obtain ⟨h1, h2, h3, h4⟩ := BarrierState.moved (s := s) (r := s.goto t pc) rfl
  rw [hpc, harrived] at h1
  rw [hpc, hleaves] at h2
  rw [hpc, hmasters] at h3
  rw [hpc, hclears] at h4
  have ha := Nat.add_right_cancel h1
  refine ⟨?_, h.done⟩
  cases h.phase with
  | gathering hvalue hroom hl hm hc hanswers =>
      exact .gathering (by rw [ha]; exact hvalue) (by rw [ha]; exact hroom)
        ((Nat.add_right_cancel h2).trans hl) ((Nat.add_right_cancel h3).trans hm)
        ((Nat.add_right_cancel h4).trans hc) hanswers
  | releasing hvalue hm hc hanswers hslaves =>
      refine .releasing (by rw [ha]; exact hvalue) ((Nat.add_right_cancel h3).trans hm) ?_
        (fun u => ?_) hslaves
      · rw [ha, Nat.add_right_cancel h4]
        exact hc
      · rw [← hanswers u]
        show _ + (Function.update s.pc t pc u).arrived = _
        by_cases hu : u = t
        · rw [hu, Function.update_self, harrived, hpc]
          rfl
        · rw [Function.update_of_ne hu]
          rfl

/-! ## Arrivals -/

theorem BarrierInv.gathering (h : BarrierInv s p)
    (hwaking : s.value &&& phBarrierWaking = 0) :
    s.value.toNat = s.arrived + Fintype.card τ * 2 ^ 32 ∧ s.arrived < Fintype.card τ ∧
      s.leaves = 0 ∧ s.masters = 0 ∧ s.clears = 0 ∧ ∀ t, (s.answers t).length = p := by
  have hlt := (and_waking _).mp hwaking
  cases h.phase with
  | gathering hvalue hroom hl hm hc hanswers => exact ⟨hvalue, hroom, hl, hm, hc, hanswers⟩
  | releasing hvalue hm hc hanswers hslaves => omega

variable {value : ULongPtr}

theorem toNat_inc (h : value.toNat + 1 < 2 ^ 64) :
    (value + phBarrierCountInc).toNat = value.toNat + 1 := by
  have hinc : phBarrierCountInc.toNat = 1 := rfl
  rw [BitVec.toNat_add, hinc, Nat.mod_eq_of_lt h]

theorem toNat_inc_waking (h : value.toNat + 1 + 2 ^ 63 < 2 ^ 64) :
    (value + phBarrierCountInc + phBarrierWaking).toNat = value.toNat + 1 + 2 ^ 63 := by
  have hwaking : phBarrierWaking.toNat = 2 ^ 63 := rfl
  rw [BitVec.toNat_add, toNat_inc (by omega), hwaking, Nat.mod_eq_of_lt h]

theorem toNat_sub_waking (h : 2 ^ 63 + 1 ≤ value.toNat) :
    (value - (phBarrierWaking + phBarrierCountInc)).toNat = value.toNat - (2 ^ 63 + 1) := by
  have hboth : (phBarrierWaking + phBarrierCountInc).toNat = 2 ^ 63 + 1 := by decide
  rw [BitVec.toNat_sub_of_le (BitVec.le_def.mpr (hboth ▸ h)), hboth]

theorem count_eq_target_iff {arrived target : Nat} (hvalue : value.toNat =
    arrived + target * 2 ^ 32) (harrived : arrived < target) (htarget : target < 2 ^ 31) :
    barrierCount value + 1 = barrierTarget value ↔ arrived + 1 = target := by
  have hcount := toNat_barrierCount value
  have htarget' := toNat_barrierTarget value
  have hone : (barrierCount value + 1).toNat = arrived + 1 := by
    have hinc : (1 : ULongPtr).toNat = 1 := rfl
    rw [BitVec.toNat_add, hcount, hinc]
    omega
  have hval : (barrierTarget value).toNat = target := by omega
  refine ⟨fun heq => ?_, fun heq => BitVec.eq_of_toNat_eq ?_⟩
  · rw [← hone, heq, hval]
  · rw [hone, hval, heq]

theorem BarrierInv.arrive
    (h : BarrierInv s p) (hpc : s.pc t = .arrive value)
    (hwaking : s.value &&& phBarrierWaking = 0) (hmore : s.arrived + 1 ≠ Fintype.card τ) :
    BarrierInv ({ s with value := s.value + phBarrierCountInc }.goto t .slave) p := by
  obtain ⟨hvalue, hroom, hl, hm, hc, hanswers⟩ := h.gathering hwaking
  obtain ⟨h1, h2, h3, h4⟩ := BarrierState.moved (s := s)
    (r := { s with value := s.value + phBarrierCountInc }.goto t .slave) rfl
  rw [hpc] at h1 h2 h3 h4
  simp only [BarrierPc.arrived, BarrierPc.leaves, BarrierPc.masters, BarrierPc.clears] at h1 h2 h3 h4
  refine ⟨.gathering ?_ (by omega) (by omega) (by omega) (by omega) hanswers, h.done⟩
  exact (toNat_inc (by omega)).trans (by omega)

theorem BarrierInv.arriveLast
    (hcard : Fintype.card τ < 2 ^ 31) (h : BarrierInv s p) (hpc : s.pc t = .arrive value)
    (hwaking : s.value &&& phBarrierWaking = 0) (hlast : s.arrived + 1 = Fintype.card τ) :
    BarrierInv ({ s with value := s.value + phBarrierCountInc + phBarrierWaking }.goto t .master)
      p := by
  obtain ⟨hvalue, hroom, hl, hm, hc, hanswers⟩ := h.gathering hwaking
  obtain ⟨h1, h2, h3, h4⟩ := BarrierState.moved (s := s)
    (r := { s with value := s.value + phBarrierCountInc + phBarrierWaking }.goto t .master) rfl
  rw [hpc] at h1 h2 h3 h4
  simp only [BarrierPc.arrived, BarrierPc.leaves, BarrierPc.masters, BarrierPc.clears] at h1 h2 h3 h4
  refine ⟨.releasing ?_ (by omega) (.inl (by omega)) (fun u => ?_) fun u htrue => ?_, h.done⟩
  · exact (toNat_inc_waking (by omega)).trans (by omega)
  · have hall := Census.eq_one_of_card BarrierPc.arrived_le_one (f := ({ s with
      value := s.value + phBarrierCountInc + phBarrierWaking }.goto t .master).pc) (by
        show BarrierState.arrived _ = _
        omega) u
    rw [hall]
    exact congrArg (· + 1) (hanswers u)
  · have hnone : (s.answers u)[p]? = none := List.getElem?_eq_none (hanswers u).le
    cases hnone.symm.trans htrue

/-! ## Departures -/

theorem BarrierInv.releasing (h : BarrierInv s p)
    (hsome : ¬(s.leaves = 0 ∧ s.masters = 0)) :
    s.value.toNat = s.arrived + Fintype.card τ * 2 ^ 32 + 2 ^ 63 ∧ s.masters = 1 ∧
      (s.clears = 0 ∨ s.arrived = 1) ∧
      (∀ t, (s.answers t).length + (s.pc t).arrived = p + 1) ∧
      ∀ t, (s.answers t)[p]? ≠ some true := by
  cases h.phase with
  | gathering hvalue hroom hl hm hc hanswers => exact absurd ⟨hl, hm⟩ hsome
  | releasing hvalue hm hc hanswers hslaves => exact ⟨hvalue, hm, hc, hanswers, hslaves⟩

theorem BarrierInv.slave (h : BarrierInv s p)
    (hpc : s.pc t = .slave) (hwaking : ¬s.value &&& phBarrierWaking = 0)
    (hcard : Fintype.card τ < 2 ^ 31) : BarrierInv (s.goto t .leave) p := by
  obtain ⟨h1, h2, h3, h4⟩ := BarrierState.moved (s := s) (r := s.goto t .leave) rfl
  rw [hpc] at h1 h2 h3 h4
  simp only [BarrierPc.arrived, BarrierPc.leaves, BarrierPc.masters, BarrierPc.clears] at h1 h2 h3 h4
  refine ⟨?_, h.done⟩
  cases h.phase with
  | gathering hvalue hroom hl hm hc hanswers =>
      exact absurd ((and_waking _).mpr (by omega)) hwaking
  | releasing hvalue hm hc hanswers hslaves =>
      refine .releasing (hvalue.trans (by omega)) (by omega) (by omega) (fun u => ?_) hslaves
      rw [← hanswers u]
      show _ + (Function.update s.pc t .leave u).arrived = _
      by_cases hu : u = t
      · rw [hu, Function.update_self, hpc]
        rfl
      · rw [Function.update_of_ne hu]
        rfl

theorem answer_answers (s : BarrierState τ) (t : τ) (result : Bool) :
    (s.answer t result).answers = Function.update s.answers t (s.answers t ++ [result]) := rfl

theorem BarrierState.getElem?_answer {t u : τ} {result : Bool} {k : Nat} :
    ((s.answer t result).answers u)[k]? =
      if u = t ∧ k = (s.answers t).length then some result else (s.answers u)[k]? := by
  rw [answer_answers]
  by_cases hu : u = t
  · subst hu
    rw [Function.update_self]
    by_cases hk : k = (s.answers u).length
    · rw [if_pos ⟨rfl, hk⟩, hk, List.getElem?_concat_length]
    · rw [if_neg fun hno => hk hno.2]
      rcases Nat.lt_or_gt_of_ne hk with hlt | hgt
      · exact List.getElem?_append_left hlt
      · rw [List.getElem?_eq_none hgt.le, List.getElem?_eq_none]
        rw [List.length_append, List.length_singleton]
        omega
  · rw [Function.update_of_ne hu, if_neg fun hno => hu hno.1]

theorem BarrierInv.done_answer (h : BarrierInv s p)
    {result : Bool} (hlength : p ≤ (s.answers t).length) :
    ∀ k < p, ∃! u, ((s.answer t result).answers u)[k]? = some true := by
  intro k hk
  obtain ⟨v, hv, honly⟩ := h.done k hk
  have hsame : ∀ u, ((s.answer t result).answers u)[k]? = (s.answers u)[k]? := by
    intro u
    rw [BarrierState.getElem?_answer, if_neg]
    rintro ⟨-, rfl⟩
    omega
  exact ⟨v, (hsame v).trans hv, fun u hu => honly u ((hsame u).symm.trans hu)⟩

theorem BarrierInv.leave (h : BarrierInv s p)
    (hpc : s.pc t = .leave) :
    BarrierInv ({ s with value := s.value - phBarrierCountInc }.answer t false) p := by
  have hleaves := Census.le_total BarrierPc.leaves s.pc t
  rw [hpc] at hleaves
  have hleaves' : 1 ≤ s.leaves := hleaves
  obtain ⟨hvalue, hm, hc, hanswers, hslaves⟩ := h.releasing (by omega)
  have hfew := s.masters_add_leaves_le
  obtain ⟨h1, h2, h3, h4⟩ := BarrierState.moved (s := s)
    (r := { s with value := s.value - phBarrierCountInc }.answer t false) rfl
  rw [hpc] at h1 h2 h3 h4
  simp only [BarrierPc.arrived, BarrierPc.leaves, BarrierPc.masters, BarrierPc.clears] at h1 h2 h3 h4
  have hlength : (s.answers t).length = p := by
    have hown := hanswers t
    rw [hpc] at hown
    exact Nat.succ.inj hown
  refine ⟨.releasing ?_ (by omega) (.inl (by omega)) (fun u => ?_) fun u => ?_,
    h.done_answer hlength.ge⟩
  · have hpos : 1 ≤ s.value.toNat := by omega
    exact (BitVec.toNat_sub_of_le hpos).trans (by show s.value.toNat - 1 = _; omega)
  · show (Function.update s.answers t (s.answers t ++ [false]) u).length +
      (Function.update s.pc t .idle u).arrived = p + 1
    by_cases hu : u = t
    · rw [hu, Function.update_self, Function.update_self, List.length_append, hlength]
      rfl
    · rw [Function.update_of_ne hu, Function.update_of_ne hu]
      exact hanswers u
  · show ((s.answer t false).answers u)[p]? ≠ some true
    rw [BarrierState.getElem?_answer]
    split
    · decide
    · exact hslaves u

theorem BarrierInv.master (h : BarrierInv s p)
    (hpc : s.pc t = .master) (hone : barrierCount s.value = 1) :
    BarrierInv (s.goto t .clear) p := by
  have hmasters := Census.le_total BarrierPc.masters s.pc t
  rw [hpc] at hmasters
  have hmasters' : 1 ≤ s.masters := hmasters
  obtain ⟨hvalue, hm, hc, hanswers, hslaves⟩ := h.releasing (by omega)
  have hle := s.arrived_le
  have hcount := toNat_barrierCount s.value
  have honeNat : (1 : ULongPtr).toNat = 1 := rfl
  rw [hone, honeNat] at hcount
  obtain ⟨h1, h2, h3, h4⟩ := BarrierState.moved (s := s) (r := s.goto t .clear) rfl
  rw [hpc] at h1 h2 h3 h4
  simp only [BarrierPc.arrived, BarrierPc.leaves, BarrierPc.masters, BarrierPc.clears] at h1 h2 h3 h4
  refine ⟨.releasing (hvalue.trans (by omega)) (by omega) (.inr (by omega)) (fun u => ?_) hslaves,
    h.done⟩
  rw [← hanswers u]
  show _ + (Function.update s.pc t .clear u).arrived = _
  by_cases hu : u = t
  · rw [hu, Function.update_self, hpc]
    rfl
  · rw [Function.update_of_ne hu]
    rfl

theorem BarrierInv.clear (h : BarrierInv s p)
    (hpc : s.pc t = .clear) :
    BarrierInv ({ s with value := s.value - (phBarrierWaking + phBarrierCountInc) }.answer t true)
      (p + 1) := by
  have hclears := Census.le_total BarrierPc.clears s.pc t
  rw [hpc] at hclears
  have hclears' : 1 ≤ s.clears := hclears
  have hfew := s.masters_add_leaves_le
  obtain ⟨hvalue, hm, hc, hanswers, hslaves⟩ := h.releasing (by omega)
  have hle := s.arrived_le
  obtain ⟨h1, h2, h3, h4⟩ := BarrierState.moved (s := s)
    (r := { s with value := s.value - (phBarrierWaking + phBarrierCountInc) }.answer t true) rfl
  rw [hpc] at h1 h2 h3 h4
  simp only [BarrierPc.arrived, BarrierPc.leaves, BarrierPc.masters, BarrierPc.clears] at h1 h2 h3 h4
  have hlength : (s.answers t).length = p := by
    have hown := hanswers t
    rw [hpc] at hown
    exact Nat.succ.inj hown
  -- Nobody else has arrived, so everyone else has answered.
  have hother : ∀ u, u ≠ t → (s.answers u).length = p + 1 := by
    intro u hu
    have hsum := Census.add_le_total BarrierPc.arrived s.pc hu
    rw [hpc] at hsum
    have hsum' : 1 + (s.pc u).arrived ≤ s.arrived := hsum
    have hown := hanswers u
    omega
  refine ⟨.gathering ?_ (by omega) (by omega) (by omega) (by omega) fun u => ?_, fun k hk => ?_⟩
  · have hsub : (s.value - (phBarrierWaking + phBarrierCountInc)).toNat =
        s.value.toNat - (2 ^ 63 + 1) := toNat_sub_waking (by omega)
    exact hsub.trans (by omega)
  · show (Function.update s.answers t (s.answers t ++ [true]) u).length = p + 1
    by_cases hu : u = t
    · rw [hu, Function.update_self, List.length_append, hlength]
      rfl
    · rw [Function.update_of_ne hu]
      exact hother u hu
  · rcases Nat.lt_or_eq_of_le (Nat.le_of_lt_succ hk) with hlt | rfl
    · exact h.done_answer hlength.ge k hlt
    · have hown : ((s.answer t true).answers t)[k]? = some true := by
        rw [BarrierState.getElem?_answer, if_pos ⟨rfl, hlength.symm⟩]
      refine ⟨t, hown, fun u hu => ?_⟩
      by_contra hne
      have htrue : ((s.answer t true).answers u)[k]? = some true := hu
      rw [BarrierState.getElem?_answer, if_neg fun hno => hne hno.1] at htrue
      exact hslaves u htrue

/-! ## Every step -/

theorem BarrierInv.advance (hcard : Fintype.card τ < 2 ^ 31)
    (h : BarrierInv s p) (t : τ) : ∃ p', BarrierInv (s.advance t) p' := by
  unfold BarrierState.advance
  cases hpc : s.pc t with
  | idle => exact ⟨p, h⟩
  | enter => exact ⟨p, h.goto hpc rfl rfl rfl rfl⟩
  | arrive value =>
      dsimp only
      split
      · next hwaking =>
        split
        · next heq =>
          subst heq
          obtain ⟨hvalue, hroom, -, -, -, -⟩ := h.gathering hwaking
          have hlast := count_eq_target_iff hvalue hroom hcard
          by_cases hmore : barrierCount s.value + 1 = barrierTarget s.value
          · rw [if_neg (not_not.mpr hmore), if_neg (not_not.mpr hmore)]
            exact ⟨p, h.arriveLast hcard hpc hwaking (hlast.mp hmore)⟩
          · rw [if_pos hmore, if_pos hmore]
            exact ⟨p, h.arrive hpc hwaking fun hno => hmore (hlast.mpr hno)⟩
        · exact ⟨p, h.goto hpc rfl rfl rfl rfl⟩
      · exact ⟨p, h.goto hpc rfl rfl rfl rfl⟩
  | observe => exact ⟨p, h.goto hpc rfl rfl rfl rfl⟩
  | slave =>
      dsimp only
      split
      · exact ⟨p, h⟩
      · next hwaking => exact ⟨p, h.slave hpc hwaking hcard⟩
  | leave => exact ⟨p, h.leave hpc⟩
  | master =>
      dsimp only
      split
      · exact ⟨p, h⟩
      · next hone => exact ⟨p, h.master hpc (not_not.mp hone)⟩
  | clear => exact ⟨p + 1, h.clear hpc⟩

theorem BarrierStep.inv {s s' : BarrierState τ} (hcard : Fintype.card τ < 2 ^ 31)
    (h : BarrierInv s p) (hstep : BarrierStep s s') : ∃ p', BarrierInv s' p' := by
  cases hstep with
  | advance t => exact h.advance hcard t
  | call t hidle => exact ⟨p, h.goto hidle rfl rfl rfl rfl⟩

theorem toNat_start {target : Nat} (h : target < 2 ^ 31) :
    (BarrierState.start (τ := τ) target).value.toNat = target * 2 ^ 32 := by
  show (BitVec.ofNat 64 target <<< 32).toNat = _
  rw [BitVec.toNat_shiftLeft, BitVec.toNat_ofNat, Nat.shiftLeft_eq]
  omega

theorem BarrierInv.start (hcard : Fintype.card τ < 2 ^ 31) (hsome : 0 < Fintype.card τ) :
    BarrierInv (BarrierState.start (τ := τ) (Fintype.card τ)) 0 := by
  have hzero : ∀ weight : BarrierPc → Nat, weight .idle = 0 →
      Census.total weight (BarrierState.start (τ := τ) (Fintype.card τ)).pc = 0 :=
    fun weight hidle => Census.total_eq_zero fun _ => hidle
  have harrived : (BarrierState.start (τ := τ) (Fintype.card τ)).arrived = 0 := hzero _ rfl
  refine ⟨.gathering ?_ (by omega) (hzero _ rfl) (hzero _ rfl) (hzero _ rfl) fun t => rfl,
    fun k hk => absurd hk (Nat.not_lt_zero k)⟩
  rw [toNat_start hcard, harrived, Nat.zero_add]

theorem BarrierInv.run (hcard : Fintype.card τ < 2 ^ 31)
    (hsome : 0 < Fintype.card τ)
    (hrun : Relation.ReflTransGen BarrierStep (BarrierState.start (Fintype.card τ)) s) :
    ∃ p, BarrierInv s p := by
  induction hrun with
  | refl => exact ⟨0, BarrierInv.start hcard hsome⟩
  | tail _ hstep ih =>
      obtain ⟨p, h⟩ := ih
      exact hstep.inv hcard h

/-! ## What holds in every reachable state -/

/-- The barrier synchronises phases; the answers of a thread are those of its calls, in
order. -/
structure BarrierPhased (s : BarrierState τ) : Prop where
  together : ∀ t u, (s.answers t).length ≤ s.calls u
  master : ∀ k, (∀ t, k < (s.answers t).length) → ∃! t, (s.answers t)[k]? = some true
  masters : ∀ (k : Nat) (t u : τ), (s.answers t)[k]? = some true → (s.answers u)[k]? = some true → t = u
  count : (barrierCount s.value).toNat = s.arrived ∧ s.arrived ≤ Fintype.card τ
  target : (barrierTarget s.value).toNat = Fintype.card τ
  between : s.arrived = 0 → s.value &&& phBarrierWaking = 0 ∧ barrierCount s.value = 0

theorem BarrierState.calls_ge (t : τ) : (s.answers t).length ≤ s.calls t := by
  unfold BarrierState.calls
  split <;> omega

theorem BarrierState.calls_of_arrived (h : (s.pc t).arrived = 1) :
    s.calls t = (s.answers t).length + 1 := by
  unfold BarrierState.calls
  split
  · next hidle =>
    rw [hidle] at h
    cases h
  · rfl

theorem BarrierInv.together (h : BarrierInv s p) (t u : τ) :
    (s.answers t).length ≤ s.calls u := by
  cases h.phase with
  | gathering hvalue hroom hl hm hc hanswers =>
      rw [hanswers t, ← hanswers u]
      exact BarrierState.calls_ge u
  | releasing hvalue hm hc hanswers hslaves =>
      have ht := hanswers t
      have hu := hanswers u
      rcases Nat.le_one_iff_eq_zero_or_eq_one.mp (s.pc u).arrived_le_one with hzero | hone
      · have hle := BarrierState.calls_ge (s := s) u
        omega
      · have hcalls := BarrierState.calls_of_arrived hone
        omega

theorem BarrierInv.lt_of_true {p k : Nat} (h : BarrierInv s p)
    (htrue : (s.answers t)[k]? = some true) : k < p := by
  obtain ⟨hlt, -⟩ := List.getElem?_eq_some_iff.mp htrue
  cases h.phase with
  | gathering hvalue hroom hl hm hc hanswers =>
      rw [← hanswers t]
      exact hlt
  | releasing hvalue hm hc hanswers hslaves =>
      have hlength := hanswers t
      have hne : k ≠ p := by
        rintro rfl
        exact hslaves t htrue
      omega

theorem BarrierInv.master_answer {p k : Nat} (h : BarrierInv s p)
    (hall : ∀ t, k < (s.answers t).length) : ∃! t, (s.answers t)[k]? = some true := by
  refine h.done k ?_
  cases h.phase with
  | gathering hvalue hroom hl hm hc hanswers =>
      obtain ⟨t⟩ := Fintype.card_pos_iff.mp (Nat.zero_lt_of_lt hroom)
      rw [← hanswers t]
      exact hall t
  | releasing hvalue hm hc hanswers hslaves =>
      have hfew := s.masters_add_leaves_le
      have hsome : 0 < Census.total BarrierPc.arrived s.pc := show 0 < s.arrived by omega
      obtain ⟨t, ht⟩ := Census.exists_of_total hsome
      have hlength := hanswers t
      have hlt := hall t
      omega

theorem phfWaitForBarrier_phased {s : BarrierState τ} (hcard : Fintype.card τ < 2 ^ 31)
    (hsome : 0 < Fintype.card τ)
    (hrun : Relation.ReflTransGen BarrierStep (BarrierState.start (Fintype.card τ)) s) :
    BarrierPhased s := by
  obtain ⟨p, h⟩ := BarrierInv.run hcard hsome hrun
  have hcount := toNat_barrierCount s.value
  have htarget := toNat_barrierTarget s.value
  have hle := s.arrived_le
  have hfew := s.masters_add_leaves_le
  refine ⟨h.together, fun k hall => h.master_answer hall, fun k t u ht hu => ?_, ⟨?_, hle⟩, ?_,
    fun hnone => ?_⟩
  · exact (h.done k (h.lt_of_true ht)).unique ht hu
  · cases h.phase with
    | gathering hvalue hroom hl hm hc hanswers => omega
    | releasing hvalue hm hc hanswers hslaves => omega
  · cases h.phase with
    | gathering hvalue hroom hl hm hc hanswers => omega
    | releasing hvalue hm hc hanswers hslaves => omega
  · cases h.phase with
    | gathering hvalue hroom hl hm hc hanswers =>
        refine ⟨(and_waking _).mpr (by omega), BitVec.eq_of_toNat_eq ?_⟩
        rw [hcount]
        show _ = 0
        omega
    | releasing hvalue hm hc hanswers hslaves => omega

end

def barrierPassed : BarrierState (Fin 2) :=
  let first := (fun s => s.advance 0)^[2] ((BarrierState.start 2).goto 0 .enter)
  let second := (fun s => s.advance 1)^[2] (first.goto 1 .enter)
  let left := (fun s => s.advance 0)^[2] second
  (fun s => s.advance 1)^[2] left

theorem barrierPassed_run :
    Relation.ReflTransGen BarrierStep (BarrierState.start (Fintype.card (Fin 2))) barrierPassed := by
  have goOn := fun t : Fin 2 => Runs.iterate_run fun s : BarrierState (Fin 2) =>
    BarrierStep.advance (s := s) t
  refine .head (.call 0 rfl) (.trans (goOn 0 2 _) (.head (.call 1 ?_) (.trans (goOn 1 2 _)
    (.trans (goOn 0 2 _) (goOn 1 2 _)))))
  rfl

theorem phfWaitForBarrier_phased_passed : barrierPassed.answers 0 = [false] ∧
    barrierPassed.answers 1 = [true] ∧ BarrierPhased barrierPassed :=
  ⟨by decide, by decide, phfWaitForBarrier_phased (by decide) (by decide) barrierPassed_run⟩

/-- A target that does not fit into its field sets the waking flag before any phase. -/
theorem phfWaitForBarrier_wide_target :
    ∃ s : BarrierState (Fin (2 ^ 31)), Relation.ReflTransGen BarrierStep
      (BarrierState.start (Fintype.card (Fin (2 ^ 31)))) s ∧ (∀ t, s.pc t = .idle) ∧
        s.value &&& phBarrierWaking ≠ 0 := by
  refine ⟨_, .refl, fun t => rfl, ?_⟩
  rw [Fintype.card_fin]
  decide

end SystemInformer.PhLib
