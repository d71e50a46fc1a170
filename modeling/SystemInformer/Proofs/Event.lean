import SystemInformer.PhLib.Event
import SystemInformer.Lib.BitField
import SystemInformer.Lib.Census
import SystemInformer.Lib.Runs

/-!
# The handle of an event is closed once

The word counts the threads that use the event, and one more until it is set. While a thread
uses the event nobody cleans up, so the handle that it has read is the handle of the event
and open. Who takes the count to zero closes the handle and then clears the field, and in
between the count may rise again: a thread that has found the event not set, and was delayed
before `PhpReferenceEvent`, reads a handle that is closed or about to be closed. It only
tests the event, which is set by then, and does not wait; but it may be the last one again.

So everything is decided where the count becomes zero. When the thread that takes it there
has the handle of the event, and no other clean-up is under way, the handle it closes is
open and is the one whose field it clears. When it has a stale handle, or none while the
event has one, a handle is closed twice or never.
-/

set_option linter.unusedSectionVars false

namespace SystemInformer.PhLib

def EventPc.holds : EventPc → Nat
  | .setReadHandle => 1
  | .setSignal _ => 1
  | .readHandle => 1
  | .create => 1
  | .publish _ => 1
  | .closeSpare _ => 1
  | .rereadHandle => 1
  | .test _ => 1
  | .block _ => 1
  | .dereference _ _ => 1
  | _ => 0

/-- The thread has taken the count to zero and not cleared the field yet. -/
def EventPc.cleans : EventPc → Nat
  | .close _ _ => 1
  | .clear _ => 1
  | _ => 0

/-- The handle that the thread has created and nobody else knows of. -/
def EventPc.spare : EventPc → Option Nat
  | .publish handle => some handle
  | .closeSpare handle => some handle
  | _ => none

/-- What the place of a thread says of the event; `quiet` is that nobody cleans up. -/
def EventPc.Place (set quiet : Prop) (eventHandle : Option Nat) (created : Nat)
    (closes : Nat → Nat) : EventPc → Prop
  | .setReadHandle => set ∧ quiet
  | .setSignal handle => set ∧ quiet ∧ eventHandle = some handle
  | .create => quiet
  | .publish handle =>
      quiet ∧ handle < created ∧ closes handle = 0 ∧ eventHandle ≠ some handle
  | .closeSpare handle =>
      quiet ∧ handle < created ∧ closes handle = 0 ∧ eventHandle ≠ some handle ∧
        eventHandle ≠ none
  | .rereadHandle => quiet ∧ eventHandle ≠ none
  | .test handle => handle ≠ none ∧ (set ∨ quiet ∧ handle = eventHandle)
  | .block handle => handle ≠ none ∧ quiet ∧ handle = eventHandle
  | .dereference _ result => result = some true → set
  | .close handle result =>
      eventHandle = some handle ∧ closes handle = 0 ∧ (result = some true → set)
  | .clear result =>
      (∃ handle, eventHandle = some handle ∧ closes handle = 1) ∧ (result = some true → set)
  | _ => True

theorem EventPc.Place.frame {pc : EventPc} {set set' quiet quiet' : Prop}
    {eventHandle eventHandle' : Option Nat} {created created' : Nat} {closes closes' : Nat → Nat}
    (h : pc.Place set quiet eventHandle created closes) (hset : set → set')
    (hquiet : pc.holds = 1 → quiet → quiet')
    (hhandle : quiet → ∀ x, eventHandle = some x → eventHandle' = some x)
    (hcreated : created ≤ created')
    (hspare : ∀ x, pc.spare = some x → closes' x = closes x ∧
      (eventHandle ≠ some x → eventHandle' ≠ some x))
    (hcleans : pc.cleans = 1 → eventHandle' = eventHandle ∧
      ∀ x, eventHandle = some x → closes' x = closes x) :
    pc.Place set' quiet' eventHandle' created' closes' := by
  have hsome : quiet → eventHandle ≠ none → eventHandle' ≠ none := by
    intro hq hne
    obtain ⟨x, hx⟩ := Option.ne_none_iff_exists'.mp hne
    rw [hhandle hq x hx]
    exact Option.some_ne_none x
  have hsame : quiet → ∀ handle : Option Nat, handle ≠ none → handle = eventHandle →
      handle = eventHandle' := by
    intro hq handle hne heq
    obtain ⟨x, hx⟩ := Option.ne_none_iff_exists'.mp hne
    rw [hx] at heq ⊢
    exact (hhandle hq x heq.symm).symm
  cases pc with
  | setReadHandle => exact ⟨hset h.1, hquiet rfl h.2⟩
  | setSignal handle => exact ⟨hset h.1, hquiet rfl h.2.1, hhandle h.2.1 handle h.2.2⟩
  | create => exact hquiet rfl h
  | publish handle =>
      obtain ⟨hq, hlt, hopen, hne⟩ := h
      obtain ⟨hcloses, hnot⟩ := hspare handle rfl
      exact ⟨hquiet rfl hq, hlt.trans_le hcreated, hcloses.trans hopen, hnot hne⟩
  | closeSpare handle =>
      obtain ⟨hq, hlt, hopen, hne, hnone⟩ := h
      obtain ⟨hcloses, hnot⟩ := hspare handle rfl
      exact ⟨hquiet rfl hq, hlt.trans_le hcreated, hcloses.trans hopen, hnot hne, hsome hq hnone⟩
  | rereadHandle => exact ⟨hquiet rfl h.1, hsome h.1 h.2⟩
  | test handle =>
      refine ⟨h.1, ?_⟩
      rcases h.2 with hs | ⟨hq, heq⟩
      · exact .inl (hset hs)
      · exact .inr ⟨hquiet rfl hq, hsame hq handle h.1 heq⟩
  | block handle => exact ⟨h.1, hquiet rfl h.2.1, hsame h.2.1 handle h.1 h.2.2⟩
  | dereference handle result => exact fun hr => hset (h hr)
  | close handle result =>
      obtain ⟨heq, hopen, hr⟩ := h
      obtain ⟨hsame', hcloses⟩ := hcleans rfl
      exact ⟨hsame'.trans heq, (hcloses handle heq).trans hopen, fun htrue => hset (hr htrue)⟩
  | clear result =>
      obtain ⟨⟨handle, heq, hclosed⟩, hr⟩ := h
      obtain ⟨hsame', hcloses⟩ := hcleans rfl
      exact ⟨⟨handle, hsame'.trans heq, (hcloses handle heq).trans hclosed⟩,
        fun htrue => hset (hr htrue)⟩
  | _ => trivial

/-! ## The word -/

theorem and_eventSet (value : ULongPtr) : value &&& phEventSet = 0 ↔ value.toNat % 2 = 0 := by
  refine (BitField.and_mask_eq_zero (k := 0) (w := 1) (by decide) value).trans ?_
  rw [BitField.field]
  omega

theorem toNat_or_eventSet (value : ULongPtr) :
    (value ||| phEventSet).toNat = value.toNat - value.toNat % 2 + 1 := by
  have hone : phEventSet.toNat = 1 := rfl
  have hmask : BitField.mask 64 0 1 = phEventSet := rfl
  have hclear := BitField.toNat_and_not_mask (k := 0) (w := 1) (by decide) value
  rw [hmask, BitField.field] at hclear
  rw [TaggedWord.toNat_or, hone]
  omega

theorem refcountBecomesZero_iff (value : ULongPtr) :
    refcountBecomesZero value ↔ value.toNat / 2 % 2 ^ 15 = 1 := by
  have hcount := BitField.toNat_shift_and (k := 1) (w := 15) (by decide) value
  rw [BitField.field, Nat.pow_one] at hcount
  rw [← hcount, refcountBecomesZero, sub_eq_zero]
  exact ⟨fun h => congrArg BitVec.toNat h, fun h => BitVec.eq_of_toNat_eq h⟩

section

variable {τ : Type} [Fintype τ] [DecidableEq τ]

namespace EventState

def references (s : EventState τ) : Nat := Census.total EventPc.holds s.pc

def cleaners (s : EventState τ) : Nat := Census.total EventPc.cleans s.pc

def IsSet (s : EventState τ) : Prop := s.value.toNat % 2 = 1

end EventState

structure EventInv (s : EventState τ) : Prop where
  count : s.value.toNat + s.value.toNat % 2 = 2 * s.references + 2
  cleaners : s.cleaners ≤ 1 ∧ (0 < s.cleaners → s.IsSet)
  current : ∀ x, s.eventHandle = some x → x < s.created ∧ (s.cleaners = 0 → s.closes x = 0)
  once : ∀ x, s.closes x ≤ 1
  fresh : ∀ x, s.created ≤ x → s.closes x = 0
  owned : ∀ x < s.created, s.closes x = 0 →
    s.eventHandle = some x ∨ ∃ t, (s.pc t).spare = some x
  distinct : ∀ t u x, (s.pc t).spare = some x → (s.pc u).spare = some x → t = u
  last : s.references = 0 → s.IsSet → s.eventHandle = none ∨ 0 < s.cleaners
  unused : s.misused = false
  signaled : ∀ x, s.signaled x = true → s.IsSet
  returned : ∀ r ∈ s.returned, r.result = true → s.IsSet
  place : ∀ t, (s.pc t).Place s.IsSet (s.cleaners = 0) s.eventHandle s.created s.closes

theorem EventState.moved {s r : EventState τ} {t : τ} {pc : EventPc}
    (hpc : r.pc = Function.update s.pc t pc) :
    r.references + (s.pc t).holds = s.references + pc.holds ∧
      r.cleaners + (s.pc t).cleans = s.cleaners + pc.cleans := by
  have hmoved := fun weight : EventPc → Nat => Census.total_update weight s.pc t pc
  rw [← hpc] at hmoved
  exact ⟨hmoved EventPc.holds, hmoved EventPc.cleans⟩

theorem EventPc.spare_update {s : EventState τ} {t u : τ} {pc : EventPc} {x : Nat}
    (h : (Function.update s.pc t pc u).spare = some x) :
    (u = t ∧ pc.spare = some x) ∨ (u ≠ t ∧ (s.pc u).spare = some x) := by
  by_cases hu : u = t
  · rw [hu, Function.update_self] at h
    exact .inl ⟨hu, h⟩
  · rw [Function.update_of_ne hu] at h
    exact .inr ⟨hu, h⟩

theorem EventPc.exists_spare_update {s : EventState τ} {t : τ} {pc : EventPc} {x : Nat}
    (h : ∃ u, (s.pc u).spare = some x) (ht : (s.pc t).spare ≠ some x) :
    ∃ u, (Function.update s.pc t pc u).spare = some x := by
  obtain ⟨u, hu⟩ := h
  refine ⟨u, ?_⟩
  rw [Function.update_of_ne]
  · exact hu
  · rintro rfl
    exact ht hu

theorem EventInv.distinct_update {s : EventState τ} {t u v : τ} {pc : EventPc} {x : Nat}
    (h : EventInv s) (hspare : pc.spare = none)
    (hu : (Function.update s.pc t pc u).spare = some x)
    (hv : (Function.update s.pc t pc v).spare = some x) : u = v := by
  rcases EventPc.spare_update hu with ⟨-, hx⟩ | ⟨-, hx⟩
  · cases hspare.symm.trans hx
  · rcases EventPc.spare_update hv with ⟨-, hy⟩ | ⟨-, hy⟩
    · cases hspare.symm.trans hy
    · exact h.distinct u v x hx hy

theorem EventInv.calm {s s' : EventState τ} {t : τ} {old pc : EventPc} (h : EventInv s)
    (hold : s.pc t = old) (hpc : s'.pc = Function.update s.pc t pc)
    (heventHandle : s'.eventHandle = s.eventHandle) (hcreated : s'.created = s.created)
    (hcloses : s'.closes = s.closes) (hmisused : s'.misused = false)
    (hcleans : pc.cleans = old.cleans) (hspare : pc.spare = old.spare)
    (hset : s.IsSet → s'.IsSet) (hcount : s'.references + old.holds = s.references + pc.holds →
      s'.value.toNat + s'.value.toNat % 2 = 2 * s'.references + 2)
    (hlast : s'.references + old.holds = s.references + pc.holds → s'.references = 0 → s'.IsSet →
      s.eventHandle = none ∨ 0 < s.cleaners)
    (hsignaled : ∀ x, s'.signaled x = true → s'.IsSet)
    (hreturned : ∀ r ∈ s'.returned, r.result = true → s'.IsSet)
    (hplace : pc.Place s'.IsSet (s.cleaners = 0) s.eventHandle s.created s.closes) :
    EventInv s' := by
  obtain ⟨hrefs, hclean⟩ := EventState.moved hpc
  rw [hold] at hrefs hclean
  rw [hcleans] at hclean
  have hquiet : s'.cleaners = s.cleaners := Nat.add_right_cancel hclean
  have hspares : ∀ u, (s'.pc u).spare = (s.pc u).spare := by
    intro u
    rw [hpc]
    by_cases hu : u = t
    · rw [hu, Function.update_self, hspare, hold]
    · rw [Function.update_of_ne hu]
  refine ⟨hcount hrefs, ?_, ?_, ?_, ?_, ?_, ?_, ?_, hmisused, hsignaled, hreturned, fun u => ?_⟩
  · rw [hquiet]
    exact ⟨h.cleaners.1, fun hpos => hset (h.cleaners.2 hpos)⟩
  · rw [heventHandle, hcreated, hcloses, hquiet]
    exact h.current
  · rw [hcloses]
    exact h.once
  · rw [hcreated, hcloses]
    exact h.fresh
  · rw [hcreated, hcloses, heventHandle]
    simp only [hspares]
    exact h.owned
  · simp only [hspares]
    exact h.distinct
  · rw [heventHandle, hquiet]
    exact hlast hrefs
  · rw [heventHandle, hcreated, hcloses, hquiet, hpc]
    by_cases hu : u = t
    · rw [hu, Function.update_self]
      exact hplace
    · rw [Function.update_of_ne hu]
      exact (h.place u).frame hset (fun _ => id) (fun _ _ => id) (Nat.le_refl _)
        (fun _ _ => ⟨rfl, id⟩) fun _ => ⟨rfl, fun _ _ => rfl⟩

theorem EventInv.goto {s : EventState τ} {t : τ} {old pc : EventPc} (h : EventInv s)
    (hold : s.pc t = old) (hholds : pc.holds = old.holds) (hcleans : pc.cleans = old.cleans)
    (hspare : pc.spare = old.spare)
    (hplace : pc.Place s.IsSet (s.cleaners = 0) s.eventHandle s.created s.closes) :
    EventInv (s.goto t pc) := by
  refine h.calm hold rfl rfl rfl rfl h.unused hcleans hspare id (fun hrefs => ?_)
    (fun hrefs hzero hset => ?_) h.signaled h.returned hplace
  · rw [hholds] at hrefs
    rw [Nat.add_right_cancel hrefs]
    exact h.count
  · rw [hholds] at hrefs
    exact h.last ((Nat.add_right_cancel hrefs).symm.trans hzero) hset

section

variable (s : EventState τ) (t : τ) (result : Option Bool)

theorem EventState.finish_pc : (s.finish t result).pc = Function.update s.pc t .idle := by
  cases result <;> rfl

theorem EventState.finish_value : (s.finish t result).value = s.value := by
  cases result <;> rfl

theorem EventState.finish_eventHandle : (s.finish t result).eventHandle = s.eventHandle := by
  cases result <;> rfl

theorem EventState.finish_created : (s.finish t result).created = s.created := by
  cases result <;> rfl

theorem EventState.finish_closes : (s.finish t result).closes = s.closes := by
  cases result <;> rfl

theorem EventState.finish_signaled : (s.finish t result).signaled = s.signaled := by
  cases result <;> rfl

theorem EventState.finish_misused : (s.finish t result).misused = s.misused := by
  cases result <;> rfl

theorem EventState.mem_finish_returned {r : EventReturn} (hr : r ∈ (s.finish t result).returned) :
    r ∈ s.returned ∨ result = some r.result := by
  cases result with
  | none => exact .inl hr
  | some result =>
      rcases List.mem_cons.mp hr with rfl | hr
      · exact .inr rfl
      · exact .inl hr

end

theorem EventInv.finish {s : EventState τ} {t : τ} {old : EventPc} {result : Option Bool}
    (h : EventInv s) (hold : s.pc t = old) (hholds : old.holds = 0) (hcleans : old.cleans = 0)
    (hspare : old.spare = none) (hresult : result = some true → s.IsSet) :
    EventInv (s.finish t result) := by
  have hvalue := s.finish_value t result
  have hset : (s.finish t result).IsSet ↔ s.IsSet := by rw [EventState.IsSet, hvalue]; rfl
  refine h.calm hold (s.finish_pc t result) (s.finish_eventHandle t result)
    (s.finish_created t result) (s.finish_closes t result)
    ((s.finish_misused t result).trans h.unused) hcleans.symm hspare.symm hset.mpr
    (fun hrefs => ?_) (fun hrefs hzero hodd => ?_) (fun x hx => ?_) (fun r hr htrue => ?_) trivial
  · rw [hholds] at hrefs
    have hsame : (s.finish t result).references = s.references := hrefs
    rw [hsame, hvalue]
    exact h.count
  · rw [hholds] at hrefs
    have hsame : (s.finish t result).references = s.references := hrefs
    exact h.last (hsame.symm.trans hzero) (hset.mp hodd)
  · rw [s.finish_signaled] at hx
    exact hset.mpr (h.signaled x hx)
  · rcases s.mem_finish_returned t result hr with hr | hr
    · exact hset.mpr (h.returned r hr htrue)
    · exact hset.mpr (hresult (hr.trans (congrArg some htrue)))

/-! ## The steps that leave the handle alone -/

theorem EventInv.set {s : EventState τ} {t : τ} (h : EventInv s) (hpc : s.pc t = .set) :
    EventInv ({ s with value := s.value ||| phEventSet }.goto t
      (if s.value &&& phEventSet = 0 then .setReadHandle else .idle)) := by
  have hvalue := toNat_or_eventSet s.value
  have hcount := h.count
  have hset : ∀ pc, ({ s with value := s.value ||| phEventSet }.goto t pc).IsSet := by
    intro pc
    show (s.value ||| phEventSet).toNat % 2 = 1
    omega
  split
  · next heven =>
    have hzero := (and_eventSet s.value).mp heven
    have hquiet : s.cleaners = 0 := by
      by_contra hne
      have hodd : s.value.toNat % 2 = 1 := h.cleaners.2 (Nat.pos_of_ne_zero hne)
      omega
    refine h.calm hpc rfl rfl rfl rfl h.unused rfl rfl (fun _ => hset _) (fun hrefs => ?_)
      (fun hrefs hnone _ => ?_) (fun _ _ => hset _) (fun _ _ _ => hset _) ⟨hset _, hquiet⟩
    · show (s.value ||| phEventSet).toNat + (s.value ||| phEventSet).toNat % 2 = _
      simp only [EventPc.holds] at hrefs
      omega
    · simp only [EventPc.holds] at hrefs
      omega
  · next hodd =>
    have hne : s.value.toNat % 2 ≠ 0 := fun hzero => hodd ((and_eventSet s.value).mpr hzero)
    have hone : s.value.toNat % 2 = 1 := by omega
    refine h.calm hpc rfl rfl rfl rfl h.unused rfl rfl (fun _ => hset _) (fun hrefs => ?_)
      (fun hrefs hnone _ => ?_) (fun _ _ => hset _) (fun _ _ _ => hset _) trivial
    · show (s.value ||| phEventSet).toNat + (s.value ||| phEventSet).toNat % 2 = _
      simp only [EventPc.holds] at hrefs
      omega
    · simp only [EventPc.holds] at hrefs
      exact h.last (by omega) hone

theorem EventInv.setSignal {s : EventState τ} {t : τ} {handle : Nat} (h : EventInv s)
    (hpc : s.pc t = .setSignal handle) :
    EventInv ((s.ntSetEvent handle).goto t (.dereference (some handle) none)) := by
  have hplace := h.place t
  rw [hpc] at hplace
  obtain ⟨hset, hquiet, hcurrent⟩ := hplace
  have hopen := (h.current handle hcurrent).2 hquiet
  refine h.calm hpc rfl rfl rfl rfl ?_ rfl rfl id (fun hrefs => ?_) (fun hrefs hzero _ => ?_)
    (fun x hx => hset) h.returned fun hno => (by cases hno)
  · show (s.misused || s.closes handle != 0) = false
    rw [h.unused, hopen]
    rfl
  · rw [Nat.add_right_cancel hrefs]
    exact h.count
  · exact h.last ((Nat.add_right_cancel hrefs).symm.trans hzero) hset

theorem EventInv.reference {s : EventState τ} {t : τ} (h : EventInv s) (hpc : s.pc t = .reference)
    (hroom : s.value.toNat + 2 < 2 ^ 64) :
    EventInv ({ s with value := s.value + phEventRefcountInc }.goto t .readHandle) := by
  have hinc : phEventRefcountInc.toNat = 2 := rfl
  have hvalue : (s.value + phEventRefcountInc).toNat = s.value.toNat + 2 := by
    rw [BitVec.toNat_add, hinc, Nat.mod_eq_of_lt hroom]
  have hcount := h.count
  have hset : s.IsSet →
      ({ s with value := s.value + phEventRefcountInc }.goto t .readHandle).IsSet := by
    intro hodd
    have hodd' : s.value.toNat % 2 = 1 := hodd
    show (s.value + phEventRefcountInc).toNat % 2 = 1
    omega
  refine h.calm hpc rfl rfl rfl rfl h.unused rfl rfl hset (fun hrefs => ?_)
    (fun hrefs hzero _ => ?_) (fun x hx => hset (h.signaled x hx))
    (fun r hr htrue => hset (h.returned r hr htrue)) trivial
  · show (s.value + phEventRefcountInc).toNat + (s.value + phEventRefcountInc).toNat % 2 = _
    simp only [EventPc.holds] at hrefs
    omega
  · simp only [EventPc.holds] at hrefs
    omega

theorem EventInv.quiet_of_none {s : EventState τ} (h : EventInv s) (hnone : s.eventHandle = none) :
    s.cleaners = 0 := by
  by_contra hne
  obtain ⟨u, hu⟩ := Census.exists_of_total (Nat.pos_of_ne_zero hne)
  have hplace := h.place u
  cases hpc : s.pc u with
  | close handle result =>
      rw [hpc] at hplace
      cases hnone.symm.trans hplace.1
  | clear result =>
      rw [hpc] at hplace
      obtain ⟨⟨handle, hcurrent, -⟩, -⟩ := hplace
      cases hnone.symm.trans hcurrent
  | _ =>
      rw [hpc] at hu
      cases hu

theorem EventInv.readHandle {s : EventState τ} {t : τ} (h : EventInv s)
    (hpc : s.pc t = .readHandle) {handle : Nat} (hcurrent : s.eventHandle = some handle) :
    EventInv (s.goto t (.test (some handle))) := by
  refine h.goto hpc rfl rfl rfl ⟨Option.some_ne_none handle, ?_⟩
  rcases Nat.eq_zero_or_pos s.cleaners with hquiet | hpos
  · exact .inr ⟨hquiet, hcurrent.symm⟩
  · exact .inl (h.cleaners.2 hpos)

theorem EventInv.test {s : EventState τ} {t : τ} {handle : Option Nat} (h : EventInv s)
    (hpc : s.pc t = .test handle) (heven : s.value &&& phEventSet = 0) :
    EventInv (s.goto t (.block handle)) := by
  have hplace := h.place t
  rw [hpc] at hplace
  refine h.goto hpc rfl rfl rfl ⟨hplace.1, ?_⟩
  rcases hplace.2 with hset | hcurrent
  · have hodd : s.value.toNat % 2 = 1 := hset
    have hzero := (and_eventSet s.value).mp heven
    omega
  · exact hcurrent

theorem EventInv.one_le_references {s : EventState τ} {t : τ} {old : EventPc}
    (hold : s.pc t = old) (hholds : old.holds = 1) : 1 ≤ s.references := by
  have hone := Census.le_total EventPc.holds s.pc t
  rw [hold, hholds] at hone
  exact hone

theorem EventInv.toNat_dereference {s : EventState τ} (h : EventInv s) (hone : 1 ≤ s.references) :
    (s.value - phEventRefcountInc).toNat = s.value.toNat - 2 := by
  have hcount := h.count
  have hle : phEventRefcountInc.toNat ≤ s.value.toNat := by
    show 2 ≤ s.value.toNat
    omega
  exact BitVec.toNat_sub_of_le hle

theorem EventInv.dereference {s : EventState τ} {t : τ} {handle : Option Nat}
    {result : Option Bool} (h : EventInv s) (hpc : s.pc t = .dereference handle result)
    (hlast : refcountBecomesZero s.value → s.eventHandle = none) :
    EventInv ({ s with value := s.value - phEventRefcountInc }.finish t result) := by
  let s' : EventState τ := { s with value := s.value - phEventRefcountInc }
  have hplace := h.place t
  rw [hpc] at hplace
  have hone := EventInv.one_le_references hpc rfl
  have hcount := h.count
  have hvalue : (s'.finish t result).value.toNat = s.value.toNat - 2 := by
    rw [s'.finish_value]
    exact h.toNat_dereference hone
  have hset : (s'.finish t result).IsSet ↔ s.IsSet := by
    rw [EventState.IsSet, EventState.IsSet, hvalue]
    omega
  refine h.calm hpc (s'.finish_pc t result) (s'.finish_eventHandle t result)
    (s'.finish_created t result) (s'.finish_closes t result)
    ((s'.finish_misused t result).trans h.unused) rfl rfl hset.mpr
    (fun hrefs => ?_) (fun hrefs hnone hodd => .inl ?_) (fun x hx => ?_) (fun r hr htrue => ?_)
    trivial
  · have hless : (s'.finish t result).references + 1 = s.references := hrefs
    show (s'.finish t result).value.toNat + (s'.finish t result).value.toNat % 2 =
      2 * (s'.finish t result).references + 2
    rw [hvalue]
    omega
  · have hodd' : s.value.toNat % 2 = 1 := hset.mp hodd
    have hless : (s'.finish t result).references + 1 = s.references := hrefs
    have hnone' : (s'.finish t result).references = 0 := hnone
    exact hlast ((refcountBecomesZero_iff _).mpr (by omega))
  · rw [s'.finish_signaled] at hx
    exact hset.mpr (h.signaled x hx)
  · rcases s'.mem_finish_returned t result hr with hr | hr
    · exact hset.mpr (h.returned r hr htrue)
    · exact hset.mpr (hplace (hr.trans (congrArg some htrue)))

/-! ## Handles that are created and closed -/

theorem EventInv.spare_open {s : EventState τ} (h : EventInv s) {u : τ} {x : Nat}
    (hu : (s.pc u).spare = some x) : x < s.created ∧ s.closes x = 0 ∧ s.eventHandle ≠ some x := by
  have hplace := h.place u
  cases hpc : s.pc u with
  | publish handle =>
      rw [hpc] at hu hplace
      cases hu
      exact ⟨hplace.2.1, hplace.2.2.1, hplace.2.2.2⟩
  | closeSpare handle =>
      rw [hpc] at hu hplace
      cases hu
      exact ⟨hplace.2.1, hplace.2.2.1, hplace.2.2.2.1⟩
  | _ =>
      rw [hpc] at hu
      cases hu

theorem EventInv.not_cleans {s : EventState τ} (hquiet : s.cleaners = 0) (u : τ) :
    (s.pc u).cleans ≠ 1 := by
  have hzero : (s.pc u).cleans = 0 := Census.eq_zero_of_total hquiet u
  omega

theorem EventInv.others_clean {s : EventState τ} (h : EventInv s) {t u : τ} {old : EventPc}
    (hold : s.pc t = old) (hcleans : old.cleans = 1) (hu : u ≠ t) : (s.pc u).cleans ≠ 1 := by
  have hsum := Census.add_le_total EventPc.cleans s.pc hu
  have hone := h.cleaners.1
  rw [hold, hcleans] at hsum
  have hsum' : 1 + (s.pc u).cleans ≤ s.cleaners := hsum
  omega

theorem EventInv.create {s : EventState τ} {t : τ} (h : EventInv s) (hpc : s.pc t = .create) :
    EventInv ({ s with created := s.created + 1 }.goto t (.publish s.created)) := by
  obtain ⟨hrefs, hclean⟩ := EventState.moved (s := s)
    (r := { s with created := s.created + 1 }.goto t (.publish s.created)) rfl
  rw [hpc] at hrefs hclean
  have hplace := h.place t
  rw [hpc] at hplace
  have hquiet := (Nat.add_right_cancel hclean).trans hplace
  have hnone : s.eventHandle ≠ some s.created := fun heq => Nat.lt_irrefl _ (h.current _ heq).1
  have hfree : ∀ u, (s.pc u).spare ≠ some s.created :=
    fun u hu => Nat.lt_irrefl _ (h.spare_open hu).1
  refine ⟨?_, ?_, fun x hx => ⟨(h.current x hx).1.trans (Nat.lt_succ_self _),
      fun _ => (h.current x hx).2 hplace⟩, h.once, fun x hx => h.fresh x (Nat.le_of_succ_le hx),
    fun x hx hopen => ?_, fun u v x hu hv => ?_, fun hzero => ?_, h.unused, h.signaled, h.returned,
    fun u => ?_⟩
  · rw [Nat.add_right_cancel hrefs]
    exact h.count
  · rw [hquiet]
    exact ⟨Nat.zero_le 1, fun hno => absurd hno (Nat.lt_irrefl 0)⟩
  · rcases Nat.lt_or_eq_of_le (Nat.le_of_lt_succ hx) with hlt | rfl
    · refine (h.owned x hlt hopen).imp_right fun hspare =>
        EventPc.exists_spare_update hspare ?_
      rw [hpc]
      exact fun hno => (by cases hno)
    · exact .inr ⟨t, by show (Function.update s.pc t _ t).spare = _; rw [Function.update_self]; rfl⟩
  · rcases EventPc.spare_update hu with ⟨rfl, hx⟩ | ⟨hne, hx⟩ <;>
      rcases EventPc.spare_update hv with ⟨rfl, hy⟩ | ⟨hne', hy⟩
    · rfl
    · cases hx
      exact absurd hy (hfree v)
    · cases hy
      exact absurd hx (hfree u)
    · exact h.distinct u v x hx hy
  · rw [Nat.add_right_cancel hrefs] at hzero
    exact absurd hzero (Nat.pos_iff_ne_zero.mp (EventInv.one_le_references hpc rfl))
  · show (Function.update s.pc t _ u).Place _ _ _ _ _
    by_cases hu : u = t
    · rw [hu, Function.update_self]
      exact ⟨hquiet, Nat.lt_succ_self _, h.fresh _ (Nat.le_refl _), hnone⟩
    · rw [Function.update_of_ne hu]
      exact (h.place u).frame id (fun _ _ => hquiet) (fun _ _ => id) (Nat.le_succ _)
        (fun _ _ => ⟨rfl, id⟩) fun _ => ⟨rfl, fun _ _ => rfl⟩

theorem EventInv.publish {s : EventState τ} {t : τ} {handle : Nat} (h : EventInv s)
    (hpc : s.pc t = .publish handle) (hnone : s.eventHandle = none) :
    EventInv ({ s with eventHandle := some handle }.goto t (.test (some handle))) := by
  obtain ⟨hrefs, hclean⟩ := EventState.moved (s := s)
    (r := { s with eventHandle := some handle }.goto t (.test (some handle))) rfl
  rw [hpc] at hrefs hclean
  have hplace := h.place t
  rw [hpc] at hplace
  obtain ⟨hcalm, hlt, hopen, -⟩ := hplace
  have hquiet := (Nat.add_right_cancel hclean).trans hcalm
  have hspare : (s.pc t).spare = some handle := by rw [hpc]; rfl
  refine ⟨?_, ?_, fun x hx => ?_, h.once, h.fresh, fun x hx hfree => ?_, fun u v x hu hv => h.distinct_update rfl hu hv,
    fun hzero => ?_, h.unused, h.signaled, h.returned, fun u => ?_⟩
  · rw [Nat.add_right_cancel hrefs]
    exact h.count
  · rw [hquiet]
    exact ⟨Nat.zero_le 1, fun hno => absurd hno (Nat.lt_irrefl 0)⟩
  · cases hx
    exact ⟨hlt, fun _ => hopen⟩
  · rcases h.owned x hx hfree with hcurrent | ⟨u, hu⟩
    · cases hnone.symm.trans hcurrent
    · by_cases hown : (s.pc t).spare = some x
      · exact .inl (hspare.symm.trans hown)
      · exact .inr (EventPc.exists_spare_update ⟨u, hu⟩ hown)
  · rw [Nat.add_right_cancel hrefs] at hzero
    exact absurd hzero (Nat.pos_iff_ne_zero.mp (EventInv.one_le_references hpc rfl))
  · show (Function.update s.pc t _ u).Place _ _ _ _ _
    by_cases hu : u = t
    · rw [hu, Function.update_self]
      exact ⟨Option.some_ne_none handle, .inr ⟨hquiet, rfl⟩⟩
    · rw [Function.update_of_ne hu]
      refine (h.place u).frame id (fun _ _ => hquiet) (fun _ x hx => ?_) (Nat.le_refl _)
        (fun x hx => ⟨rfl, fun _ heq => ?_⟩) fun hcleans => absurd hcleans (EventInv.not_cleans hcalm u)
      · cases hnone.symm.trans hx
      · cases heq
        exact hu (h.distinct u t handle hx hspare)

theorem EventInv.closeSpare {s : EventState τ} {t : τ} {handle : Nat} (h : EventInv s)
    (hpc : s.pc t = .closeSpare handle) :
    EventInv ((s.ntClose handle).goto t .rereadHandle) := by
  obtain ⟨hrefs, hclean⟩ := EventState.moved (s := s)
    (r := (s.ntClose handle).goto t .rereadHandle) rfl
  rw [hpc] at hrefs hclean
  have hplace := h.place t
  rw [hpc] at hplace
  obtain ⟨hcalm, hlt, hopen, hne, hsome⟩ := hplace
  have hquiet := (Nat.add_right_cancel hclean).trans hcalm
  have hspare : (s.pc t).spare = some handle := by rw [hpc]; rfl
  have hcloses : ∀ x, x ≠ handle → (s.ntClose handle).closes x = s.closes x :=
    fun x hx => Function.update_of_ne hx ..
  have hclosed : (s.ntClose handle).closes handle = 1 := by
    show Function.update s.closes handle (s.closes handle + 1) handle = 1
    rw [Function.update_self, hopen]
  refine ⟨?_, ?_, fun x hx => ⟨(h.current x hx).1, fun _ => ?_⟩, fun x => ?_, fun x hx => ?_,
    fun x hx hfree => ?_, fun u v x hu hv => h.distinct_update rfl hu hv, fun hzero => ?_, ?_, h.signaled, h.returned,
    fun u => ?_⟩
  · rw [Nat.add_right_cancel hrefs]
    exact h.count
  · rw [hquiet]
    exact ⟨Nat.zero_le 1, fun hno => absurd hno (Nat.lt_irrefl 0)⟩
  · refine (hcloses x ?_).trans ((h.current x hx).2 hcalm)
    rintro rfl
    exact hne hx
  · by_cases hx : x = handle
    · rw [hx]
      exact hclosed.le
    · exact (hcloses x hx).trans_le (h.once x)
  · refine (hcloses x ?_).trans (h.fresh x hx)
    rintro rfl
    exact absurd hlt (Nat.not_lt.mpr hx)
  · have hother : x ≠ handle := by
      rintro rfl
      cases hclosed.symm.trans hfree
    exact (h.owned x hx ((hcloses x hother).symm.trans hfree)).imp_right fun hsome' =>
      EventPc.exists_spare_update hsome' fun hx' =>
        hother (Option.some.inj (hx'.symm.trans hspare))
  · rw [Nat.add_right_cancel hrefs] at hzero
    exact absurd hzero (Nat.pos_iff_ne_zero.mp (EventInv.one_le_references hpc rfl))
  · show (s.misused || s.closes handle != 0) = false
    rw [h.unused, hopen]
    rfl
  · show (Function.update s.pc t _ u).Place _ _ _ _ _
    by_cases hu : u = t
    · rw [hu, Function.update_self]
      exact ⟨hquiet, hsome⟩
    · rw [Function.update_of_ne hu]
      refine (h.place u).frame id (fun _ _ => hquiet) (fun _ _ => id) (Nat.le_refl _)
        (fun x hx => ⟨hcloses x ?_, id⟩) fun hcleans => absurd hcleans (EventInv.not_cleans hcalm u)
      rintro rfl
      exact hu (h.distinct u t x hx hspare)

/-- The count becomes zero while the thread has the handle of the event and nobody else
cleans up. -/
theorem EventInv.dereferenceLast {s : EventState τ} {t : τ} {handle : Nat} {result : Option Bool}
    (h : EventInv s) (hpc : s.pc t = .dereference (some handle) result)
    (hlast : s.value >>> phEventRefcountShift = 1) (hcurrent : s.eventHandle = some handle)
    (hcalm : s.cleaners = 0) :
    EventInv ({ s with value := s.value - phEventRefcountInc }.goto t (.close handle result)) := by
  obtain ⟨hrefs, hclean⟩ := EventState.moved (s := s)
    (r := { s with value := s.value - phEventRefcountInc }.goto t (.close handle result)) rfl
  rw [hpc] at hrefs hclean
  have hplace := h.place t
  rw [hpc] at hplace
  have hone := EventInv.one_le_references hpc rfl
  have hcount := h.count
  have hvalue := h.toNat_dereference hone
  have hshift : s.value.toNat / 2 = 1 := by
    have hnat := congrArg BitVec.toNat hlast
    rw [BitVec.toNat_ushiftRight, Nat.shiftRight_eq_div_pow] at hnat
    exact hnat
  have hset : s.IsSet := by
    show s.value.toNat % 2 = 1
    omega
  have hset' : ({ s with value := s.value - phEventRefcountInc }.goto t
      (.close handle result)).IsSet := by
    show (s.value - phEventRefcountInc).toNat % 2 = 1
    omega
  have honly : s.references = 1 := by omega
  have hcleaner : ({ s with value := s.value - phEventRefcountInc }.goto t
      (.close handle result)).cleaners = 1 := by
    simp only [EventPc.cleans] at hclean
    omega
  refine ⟨?_, ⟨hcleaner.le, fun _ => hset'⟩, fun x hx => ⟨(h.current x hx).1, fun hno => ?_⟩,
    h.once, h.fresh, fun x hx hfree => ?_, fun u v x hu hv => h.distinct_update rfl hu hv,
    fun _ _ => .inr (by rw [hcleaner]; exact Nat.one_pos), h.unused, fun x _ => hset',
    fun r _ _ => hset', fun u => ?_⟩
  · show (s.value - phEventRefcountInc).toNat + (s.value - phEventRefcountInc).toNat % 2 = _
    simp only [EventPc.holds] at hrefs
    omega
  · rw [hcleaner] at hno
    cases hno
  · refine (h.owned x hx hfree).imp_right fun hspare => EventPc.exists_spare_update hspare ?_
    rw [hpc]
    exact fun hno => (by cases hno)
  · show (Function.update s.pc t _ u).Place _ _ _ _ _
    by_cases hu : u = t
    · rw [hu, Function.update_self]
      exact ⟨hcurrent, (h.current handle hcurrent).2 hcalm, fun _ => hset'⟩
    · rw [Function.update_of_ne hu]
      refine (h.place u).frame (fun _ => hset') (fun hholds => ?_) (fun _ _ => id) (Nat.le_refl _)
        (fun x hx => ⟨rfl, id⟩) fun _ => ⟨rfl, fun _ _ => rfl⟩
      -- Nobody else refers to the event.
      have hsum := Census.add_le_total EventPc.holds s.pc hu
      rw [hpc, hholds] at hsum
      have hsum' : 1 + 1 ≤ s.references := hsum
      omega

theorem EventInv.close {s : EventState τ} {t : τ} {handle : Nat} {result : Option Bool}
    (h : EventInv s) (hpc : s.pc t = .close handle result) :
    EventInv ((s.ntClose handle).goto t (.clear result)) := by
  obtain ⟨hrefs, hclean⟩ := EventState.moved (s := s)
    (r := (s.ntClose handle).goto t (.clear result)) rfl
  rw [hpc] at hrefs hclean
  have hplace := h.place t
  rw [hpc] at hplace
  obtain ⟨hcurrent, hopen, hresult⟩ := hplace
  have hsame := Nat.add_right_cancel hclean
  have hlt := (h.current handle hcurrent).1
  have hone : 1 ≤ s.cleaners := by
    have hle := Census.le_total EventPc.cleans s.pc t
    rw [hpc] at hle
    exact hle
  have hcloses : ∀ x, x ≠ handle → (s.ntClose handle).closes x = s.closes x :=
    fun x hx => Function.update_of_ne hx ..
  have hclosed : (s.ntClose handle).closes handle = 1 := by
    show Function.update s.closes handle (s.closes handle + 1) handle = 1
    rw [Function.update_self, hopen]
  refine ⟨?_, ?_, fun x hx => ⟨(h.current x hx).1, fun hno => ?_⟩, fun x => ?_, fun x hx => ?_,
    fun x hx hfree => ?_, fun u v x hu hv => h.distinct_update rfl hu hv, fun _ _ => .inr ?_, ?_, h.signaled, h.returned,
    fun u => ?_⟩
  · rw [Nat.add_right_cancel hrefs]
    exact h.count
  · rw [hsame]
    exact h.cleaners
  · rw [hsame] at hno
    omega
  · by_cases hx : x = handle
    · rw [hx]
      exact hclosed.le
    · exact (hcloses x hx).trans_le (h.once x)
  · refine (hcloses x ?_).trans (h.fresh x hx)
    rintro rfl
    exact absurd hlt (Nat.not_lt.mpr hx)
  · have hother : x ≠ handle := by
      rintro rfl
      cases hclosed.symm.trans hfree
    refine (h.owned x hx ((hcloses x hother).symm.trans hfree)).imp_right fun hspare =>
      EventPc.exists_spare_update hspare ?_
    show (s.pc t).spare ≠ some x
    rw [hpc]
    exact fun hno => (by cases hno)
  · rw [hsame]
    exact hone
  · show (s.misused || s.closes handle != 0) = false
    rw [h.unused, hopen]
    rfl
  · show (Function.update s.pc t _ u).Place _ _ _ _ _
    by_cases hu : u = t
    · rw [hu, Function.update_self]
      exact ⟨⟨handle, hcurrent, hclosed⟩, hresult⟩
    · rw [Function.update_of_ne hu]
      refine (h.place u).frame id (fun _ hq => hsame.trans hq) (fun _ _ => id) (Nat.le_refl _)
        (fun x hx => ⟨hcloses x ?_, id⟩) fun hcleans => absurd hcleans (h.others_clean hpc rfl hu)
      rintro rfl
      exact (h.spare_open hx).2.2 hcurrent

theorem EventInv.clear {s s' : EventState τ} {t : τ} {result : Option Bool}
    (h : EventInv s) (hold : s.pc t = .clear result) (hpc : s'.pc = Function.update s.pc t .idle)
    (hvalue : s'.value = s.value) (hnone : s'.eventHandle = none) (hcreated : s'.created = s.created)
    (hcloses : s'.closes = s.closes) (hsignaled : s'.signaled = s.signaled)
    (hmisused : s'.misused = s.misused)
    (hreturned : ∀ r ∈ s'.returned, r ∈ s.returned ∨ result = some r.result) : EventInv s' := by
  obtain ⟨hrefs, hclean⟩ := EventState.moved hpc
  rw [hold] at hrefs hclean
  simp only [EventPc.holds, EventPc.cleans] at hrefs hclean
  have hplace := h.place t
  rw [hold] at hplace
  obtain ⟨⟨handle, hcurrent, hclosed⟩, hresult⟩ := hplace
  have hone := h.cleaners.1
  have hquiet : s'.cleaners = 0 := by omega
  have hbusy : s.cleaners ≠ 0 := by omega
  have hset : s'.IsSet ↔ s.IsSet := by rw [EventState.IsSet, hvalue]; rfl
  refine ⟨?_, ?_, fun x hx => ?_, fun x => ?_, fun x hx => ?_, fun x hx hopen => ?_,
    fun u v x hu hv => ?_, fun _ _ => .inl hnone, hmisused.trans h.unused, fun x hx => ?_,
    fun r hr htrue => ?_, fun u => ?_⟩
  · have hsame : s'.references = s.references := hrefs
    rw [hvalue, hsame]
    exact h.count
  · rw [hquiet]
    exact ⟨Nat.zero_le 1, fun hno => absurd hno (Nat.lt_irrefl 0)⟩
  · cases hnone.symm.trans hx
  · rw [hcloses]
    exact h.once x
  · rw [hcreated] at hx
    rw [hcloses]
    exact h.fresh x hx
  · rw [hcreated] at hx
    rw [hcloses] at hopen
    rw [hpc]
    rcases h.owned x hx hopen with heq | hspare
    · cases hcurrent.symm.trans heq
      cases hclosed.symm.trans hopen
    · refine .inr (EventPc.exists_spare_update hspare ?_)
      rw [hold]
      exact fun hno => (by cases hno)
  · rw [hpc] at hu hv
    exact h.distinct_update rfl hu hv
  · rw [hsignaled] at hx
    exact hset.mpr (h.signaled x hx)
  · rcases hreturned r hr with hr | hr
    · exact hset.mpr (h.returned r hr htrue)
    · exact hset.mpr (hresult (hr.trans (congrArg some htrue)))
  · rw [hpc]
    by_cases hu : u = t
    · rw [hu, Function.update_self]
      exact trivial
    · rw [Function.update_of_ne hu]
      exact (h.place u).frame hset.mpr (fun _ hq => absurd hq hbusy) (fun hq => absurd hq hbusy)
        hcreated.ge (fun x hx => ⟨congrFun hcloses x, fun _ heq => by cases hnone.symm.trans heq⟩)
        fun hcleans => absurd hcleans (h.others_clean hold rfl hu)

/-! ## Every step -/

/-- What decides whether a handle is lost: the count is not at its end, and a thread that
takes it to zero has the handle of the event and is the only one to clean up. -/
def EventPc.Sound (s : EventState τ) : EventPc → Prop
  | .reference => s.value.toNat + 2 < 2 ^ 64
  | .dereference handle _ => refcountBecomesZero s.value →
      s.value >>> phEventRefcountShift = 1 ∧ handle = s.eventHandle ∧ ∀ u, (s.pc u).cleans = 0
  | _ => True

instance (s : EventState τ) : DecidablePred (EventPc.Sound s)
  | .reference => inferInstanceAs (Decidable (_ < _))
  | .dereference _ _ => inferInstanceAs (Decidable (_ → _ ∧ _ ∧ _))
  | .idle | .set | .setReadHandle | .setSignal _ | .wait | .readHandle | .create | .publish _
  | .closeSpare _ | .rereadHandle | .test _ | .block _ | .close _ _ | .clear _ => .isTrue trivial

def EventState.Sound (s : EventState τ) (t : τ) : Prop := (s.pc t).Sound s

theorem EventInv.advance {s : EventState τ} {t : τ} (h : EventInv s) (hsound : s.Sound t)
    (timedOut : Bool) : EventInv (s.advance t timedOut) := by
  have hplace := h.place t
  rw [EventState.Sound] at hsound
  unfold EventState.advance
  cases hpc : s.pc t with
  | idle => exact h
  | set => exact h.set hpc
  | setReadHandle =>
      rw [hpc] at hplace
      obtain ⟨hset, hquiet⟩ := hplace
      cases hcurrent : s.eventHandle with
      | some handle => exact h.goto hpc rfl rfl rfl ⟨hset, hquiet, hcurrent⟩
      | none => exact h.goto hpc rfl rfl rfl fun hno => (by cases hno)
  | setSignal handle => exact h.setSignal hpc
  | wait =>
      dsimp only
      split
      · next hodd =>
        refine h.finish hpc rfl rfl rfl fun _ => ?_
        have hne := fun hzero => hodd ((and_eventSet s.value).mpr hzero)
        exact Nat.mod_two_ne_zero.mp hne
      · split
        · exact h.finish hpc rfl rfl rfl fun hno => (by cases hno)
        · exact h.goto hpc rfl rfl rfl trivial
  | reference =>
      rw [hpc] at hsound
      exact h.reference hpc hsound
  | readHandle =>
      cases hcurrent : s.eventHandle with
      | some handle => exact h.readHandle hpc hcurrent
      | none => exact h.goto hpc rfl rfl rfl (h.quiet_of_none hcurrent)
  | create => exact h.create hpc
  | publish handle =>
      dsimp only
      split
      · next hnone => exact h.publish hpc hnone
      · next hsome =>
        rw [hpc] at hplace
        obtain ⟨hquiet, hlt, hopen, hne⟩ := hplace
        exact h.goto hpc rfl rfl rfl ⟨hquiet, hlt, hopen, hne, hsome⟩
  | closeSpare handle => exact h.closeSpare hpc
  | rereadHandle =>
      rw [hpc] at hplace
      exact h.goto hpc rfl rfl rfl ⟨hplace.2, .inr ⟨hplace.1, rfl⟩⟩
  | test handle =>
      dsimp only
      split
      · next heven => exact h.test hpc heven
      · next hodd =>
        refine h.goto hpc rfl rfl rfl fun _ => ?_
        have hne := fun hzero => hodd ((and_eventSet s.value).mpr hzero)
        exact Nat.mod_two_ne_zero.mp hne
  | block handle =>
      rw [hpc] at hplace
      obtain ⟨hsome, hquiet, hcurrent⟩ := hplace
      cases handle with
      | none => exact absurd rfl hsome
      | some handle =>
          have hopen := (h.current handle hcurrent.symm).2 hquiet
          dsimp only
          rw [if_neg (not_not.mpr hopen)]
          split
          · next hsignaled =>
            exact h.goto hpc rfl rfl rfl fun _ => h.signaled handle hsignaled
          · split
            · exact h.goto hpc rfl rfl rfl fun hno => (by cases hno)
            · exact h
  | dereference handle result =>
      rw [hpc] at hsound
      dsimp only
      split
      · next hlast =>
        obtain ⟨hone, hcurrent, hnobody⟩ := hsound hlast
        cases handle with
        | none => exact h.dereference hpc fun _ => hcurrent.symm
        | some handle =>
            exact h.dereferenceLast hpc hone hcurrent.symm (Census.total_eq_zero hnobody)
      · next hmore => exact h.dereference hpc fun hlast => absurd hlast hmore
  | close handle result => exact h.close hpc
  | clear result =>
      dsimp only
      exact h.clear hpc (EventState.finish_pc ..) (EventState.finish_value ..)
        (EventState.finish_eventHandle ..) (EventState.finish_created ..)
        (EventState.finish_closes ..) (EventState.finish_signaled ..)
        (EventState.finish_misused ..) fun r hr =>
          EventState.mem_finish_returned { s with eventHandle := none } t result hr

theorem EventStep.inv {s s' : EventState τ} {setter : τ} (h : EventInv s)
    (hstep : EventStep setter EventState.Sound s s') : EventInv s' := by
  cases hstep with
  | advance t timedOut hsound => exact h.advance hsound timedOut
  | set hidle => exact h.goto hidle rfl rfl rfl trivial
  | wait t timeout hwaiter hidle =>
      have hcall : EventInv { s with timeout := Function.update s.timeout t timeout } :=
        ⟨h.count, h.cleaners, h.current, h.once, h.fresh, h.owned, h.distinct, h.last, h.unused,
          h.signaled, h.returned, h.place⟩
      exact hcall.goto hidle rfl rfl rfl trivial

theorem EventInv.start : EventInv (EventState.start (τ := τ)) := by
  have hzero : ∀ weight : EventPc → Nat, weight .idle = 0 →
      Census.total weight (EventState.start (τ := τ)).pc = 0 :=
    fun weight hidle => Census.total_eq_zero fun _ => hidle
  have hrefs : (EventState.start (τ := τ)).references = 0 := hzero _ rfl
  have hcleaners : (EventState.start (τ := τ)).cleaners = 0 := hzero _ rfl
  have hvalue : (EventState.start (τ := τ)).value.toNat = 2 := rfl
  refine ⟨by rw [hrefs, hvalue], by rw [hcleaners]; exact ⟨Nat.zero_le 1, fun hno => absurd hno
      (Nat.lt_irrefl 0)⟩, fun x hx => (by cases hx), fun x => Nat.zero_le 1, fun x _ => rfl,
    fun x hx => absurd hx (Nat.not_lt_zero x), fun t u x ht => (by cases ht),
    fun _ _ => .inl rfl, rfl, fun x hx => (by cases hx), fun r hr => (by cases hr), fun t => trivial⟩

theorem EventInv.run {s : EventState τ} {setter : τ}
    (hrun : Relation.ReflTransGen (EventStep setter EventState.Sound) EventState.start s) :
    EventInv s := by
  induction hrun with
  | refl => exact EventInv.start
  | tail _ hstep ih => exact hstep.inv ih

/-! ## What holds in every reachable state -/

/-- No handle is closed twice or used after it was closed, every handle is closed when the
event is set and all calls have returned, and no wait returns before the event is set. -/
structure EventClosesOnce (s : EventState τ) : Prop where
  once : ∀ handle, s.closes handle ≤ 1
  unused : s.misused = false
  closed : s.IsSet → (∀ t, s.pc t = .idle) → ∀ handle < s.created, s.closes handle = 1
  returned : ∀ r ∈ s.returned, r.timeout = .infinite → r.result = true → s.IsSet

theorem phEvent_closesOnce {s : EventState τ} {setter : τ}
    (hrun : Relation.ReflTransGen (EventStep setter EventState.Sound) EventState.start s) :
    EventClosesOnce s := by
  have h := EventInv.run hrun
  refine ⟨h.once, h.unused, fun hset hidle x hx => ?_, fun r hr _ htrue => h.returned r hr htrue⟩
  have hrefs : s.references = 0 := Census.total_eq_zero fun t => by rw [hidle t]; rfl
  have hcleaners : s.cleaners = 0 := Census.total_eq_zero fun t => by rw [hidle t]; rfl
  have hnone : s.eventHandle = none := (h.last hrefs hset).resolve_right (by omega)
  have hle := h.once x
  by_contra hne
  rcases h.owned x hx (by omega) with hcurrent | ⟨t, ht⟩
  · cases hnone.symm.trans hcurrent
  · rw [hidle t] at ht
    cases ht

end

/-! ## A handle that is closed once, and one that is closed twice -/

def EventState.goOn (s : EventState (Fin 3)) (t : Fin 3) (n : Nat) : EventState (Fin 3) :=
  (fun s => s.advance t false)^[n] s

def EventState.waiting (s : EventState (Fin 3)) (t : Fin 3) : EventState (Fin 3) :=
  { s with timeout := Function.update s.timeout t .infinite }.goto t .wait

/-- A waiter waits for the handle it has created, the setter sets the event and is done, and
the waiter closes the handle. -/
def eventWaitedFor : EventState (Fin 3) :=
  ((((EventState.start.waiting 1).goOn 1 6).goto 0 .set).goOn 0 4).goOn 1 4

def delayedWaiter : EventState (Fin 3) := (EventState.start.waiting 2).goOn 2 1

/-- Another waiter waits for the handle it has created. -/
def blockedWaiter : EventState (Fin 3) := (delayedWaiter.waiting 1).goOn 1 6

/-- The setter has set the event, and the other waiter has taken the count to zero. -/
def releasedWaiter : EventState (Fin 3) := ((blockedWaiter.goto 0 .set).goOn 0 4).goOn 1 2

/-- The delayed waiter has taken the count to zero again and closed the handle, and so does
the other. -/
def closedTwice : EventState (Fin 3) := (releasedWaiter.goOn 2 5).goOn 1 1

theorem EventState.goOn_run (s : EventState (Fin 3)) (t : Fin 3) (n : Nat) :
    Relation.ReflTransGen (EventStep 0 fun _ _ => True) s (s.goOn t n) :=
  Runs.iterate_run (fun _ => .advance t false trivial) n s

theorem EventState.goOn_sound (s : EventState (Fin 3)) (t : Fin 3) (n : Nat)
    (h : ∀ k < n, ((s.goOn t k).pc t).Sound (s.goOn t k)) :
    Relation.ReflTransGen (EventStep 0 EventState.Sound) s (s.goOn t n) :=
  Runs.iterate_run_of fun k hk => .advance t false (h k hk)

theorem eventWaitedFor_run :
    Relation.ReflTransGen (EventStep (0 : Fin 3) EventState.Sound) EventState.start
      eventWaitedFor := by
  have hidle : ((EventState.start.waiting 1).goOn 1 6).pc 0 = .idle := by decide
  have hwaits := EventState.goOn_sound (EventState.start.waiting 1) 1 6 (by decide)
  have hsets := EventState.goOn_sound (((EventState.start.waiting 1).goOn 1 6).goto 0 .set) 0 4
    (by decide)
  have hcloses := EventState.goOn_sound
    ((((EventState.start.waiting 1).goOn 1 6).goto 0 .set).goOn 0 4) 1 4 (by decide)
  exact .head (.wait 1 .infinite (by decide) rfl)
    (hwaits.trans (.head (.set hidle) (hsets.trans hcloses)))

theorem phEvent_closesOnce_waited : eventWaitedFor.created = 1 ∧ eventWaitedFor.closes 0 = 1 ∧
    EventClosesOnce eventWaitedFor :=
  ⟨by decide, by decide, phEvent_closesOnce eventWaitedFor_run⟩

theorem closedTwice_run : Relation.ReflTransGen (EventStep (0 : Fin 3) fun _ _ => True)
    EventState.start closedTwice := by
  have hdelayed : Relation.ReflTransGen (EventStep (0 : Fin 3) fun _ _ => True)
      EventState.start delayedWaiter :=
    .head (.wait 2 .infinite (by decide) rfl) (EventState.goOn_run _ 2 1)
  have hidle : delayedWaiter.pc 1 = .idle := by decide
  have hblocked : Relation.ReflTransGen (EventStep (0 : Fin 3) fun _ _ => True)
      EventState.start blockedWaiter :=
    .trans hdelayed (.head (.wait 1 .infinite (by decide) hidle) (EventState.goOn_run _ 1 6))
  have hidle' : blockedWaiter.pc 0 = .idle := by decide
  have hreleased : Relation.ReflTransGen (EventStep (0 : Fin 3) fun _ _ => True)
      EventState.start releasedWaiter :=
    .trans hblocked (.head (.set hidle') ((EventState.goOn_run _ 0 4).trans
      (EventState.goOn_run _ 1 2)))
  exact hreleased.trans ((EventState.goOn_run _ 2 5).trans (EventState.goOn_run _ 1 1))

theorem phEvent_closes_twice : ∃ s : EventState (Fin 3), Relation.ReflTransGen
    (EventStep (0 : Fin 3) fun _ _ => True) EventState.start s ∧
      s.closes 0 = 2 ∧ s.misused = true :=
  ⟨closedTwice, closedTwice_run, by decide, by decide⟩

end SystemInformer.PhLib
