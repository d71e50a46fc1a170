import SystemInformer.Driver.Protection
import SystemInformer.Lib.Runs

/-!
# A protected process stays protected

While a process is protected and its lock is free, every handle the protection is about
grants only what the masks allow. While the lock is held by a start, this is so of all
handles but those that the enumeration has not come to yet: the handles of the process
contexts still to come, and those further on in the handle table it is in. A handle that
is made in the meantime is filtered with the masks that the start has set before it
enumerates. The enumeration ends with nothing left, or with an error that takes the
protection away.
-/

set_option linter.unusedSectionVars false

namespace SystemInformer.Driver

open Runs

/-! ## Masks -/

/-- No right of `access` is outside `mask`. -/
def Within (access mask : AccessMask) : Prop := access &&& mask = access

theorem within_and (access mask : AccessMask) : Within (access &&& mask) mask := by
  rw [Within, BitVec.and_assoc, BitVec.and_self]

theorem Within.or {access mask : AccessMask} (h : Within access mask) (more : AccessMask) :
    Within access (mask ||| more) := by
  rw [Within] at *
  rw [← h, BitVec.and_assoc]
  congr 1
  ext i hi
  simp only [BitVec.getElem_and, BitVec.getElem_or]
  cases mask[i] <;> rfl

theorem Within.decode {access mask : AccessMask} (h : Within access mask) :
    Within (obpDecodeGrantedAccess access) mask := by
  rw [Within] at *
  rw [obpDecodeGrantedAccess, BitVec.and_assoc, BitVec.and_comm objGrantedAccessMask,
    ← BitVec.and_assoc, h]

theorem obpDecodeGrantedAccess_set (access mask : AccessMask) :
    obpDecodeGrantedAccess
        (obpSetGrantedAccess access (obpDecodeGrantedAccess access &&& mask)) =
      obpDecodeGrantedAccess access &&& mask := by
  simp only [obpDecodeGrantedAccess, obpSetGrantedAccess]
  ext i hi
  simp only [BitVec.getElem_and, BitVec.getElem_or, BitVec.getElem_not]
  cases access[i] <;> cases mask[i] <;> cases objGrantedAccessMask[i] <;> rfl

section

variable {π τ : Type} {w : ProtectionWorld π τ}

theorem HandleTableEntry.strip_within (entry : HandleTableEntry π τ) (mask : AccessMask) :
    Within (obpDecodeGrantedAccess (entry.strip mask).grantedAccess) mask := by
  unfold HandleTableEntry.strip
  by_cases h : obpDecodeGrantedAccess entry.grantedAccess &&& mask ≠
      obpDecodeGrantedAccess entry.grantedAccess
  · simp only [if_pos h]
    rw [obpDecodeGrantedAccess_set]
    exact within_and _ _
  · simp only [if_neg h]
    exact not_ne_iff.mp h

variable {entry : HandleTableEntry π τ}

theorem HandleTableEntry.strip_of_within {mask : AccessMask}
    (h : Within (obpDecodeGrantedAccess entry.grantedAccess) mask) : entry.strip mask = entry := by
  rw [Within] at h
  rw [HandleTableEntry.strip, if_neg (not_not.mpr h)]

theorem HandleTableEntry.strip_eq (entry : HandleTableEntry π τ) (mask : AccessMask) :
    ∃ access, entry.strip mask = { entry with grantedAccess := access } := by
  unfold HandleTableEntry.strip
  simp only
  split
  · exact ⟨_, rfl⟩
  · exact ⟨entry.grantedAccess, rfl⟩

/-! ## Handles the protection is about -/

variable [DecidableEq π]

/-- The protection of `target` is about this entry in the table of `holder`. -/
structure Guarded (w : ProtectionWorld π τ) (target holder : π) (entry : HandleTableEntry π τ) :
    Prop where
  owner : entry.object.owner w = some target
  holder : holder ≠ target
  user : entry.kernelHandle = false
  notSuppressed : entry.suppressed = false
  notOwn : w.threadProcess entry.actor ≠ target

def MadeByCreator (w : ProtectionWorld π τ) (target : π) (entry : HandleTableEntry π τ) : Prop :=
  entry.operation = .handleCreate ∧ w.isCreatingProcess entry.actor = true ∧
    w.isCreatingProcessId entry.actor = w.processId target

instance (target : π) (entry : HandleTableEntry π τ) : Decidable (MadeByCreator w target entry) :=
  inferInstanceAs (Decidable (_ ∧ _))

/-- The access that an entry may grant. -/
def permittedMask (w : ProtectionWorld π τ) (protection : ProcessProtection) (target : π)
    (entry : HandleTableEntry π τ) : AccessMask :=
  protection.allowedMask entry.object |||
    if MadeByCreator w target entry then creatorAccess entry.object else 0

def Permitted (w : ProtectionWorld π τ) (protection : ProcessProtection) (target : π)
    (entry : HandleTableEntry π τ) : Prop :=
  Within (obpDecodeGrantedAccess entry.grantedAccess) (permittedMask w protection target entry)

def ProtectionState.Has (s : ProtectionState π τ) (holder : π) (handle : Nat)
    (entry : HandleTableEntry π τ) : Prop :=
  ∃ table, s.handleTable holder = .ok table ∧ table handle = some entry

/-- Every handle the protection is about grants only what is permitted. -/
def Confined (w : ProtectionWorld π τ) (s : ProtectionState π τ) (target : π) : Prop :=
  ∀ holder handle entry, s.Has holder handle entry → Guarded w target holder entry →
    Permitted w (s.protection target) target entry

def ProtectionEnum.Left (e : ProtectionEnum π) (holder : π) (handle : Nat) : Prop :=
  holder ∈ e.todo ∨ ∃ next, e.walk = some (holder, next) ∧ next ≤ handle

def ProtectionState.Left (s : ProtectionState π τ) (target holder : π) (handle : Nat) : Prop :=
  ∃ e, s.enumeration target = some e ∧ e.Left holder handle

/-! ## What the two callbacks do -/

theorem kphpEnumProcessHandlesForProtection_eq (dyn : ProtectionDyn) (target : π)
    (protection : ProcessProtection) (handle : Nat) (entry : HandleTableEntry π τ) :
    kphpEnumProcessHandlesForProtection w dyn target protection handle entry =
      if isKernelHandle handle then .ok entry
      else if dyn.obDecodeShift = ulongMax then .error statusNoInterface
      else if entry.object.owner w = some target then
        .ok (entry.strip (protection.allowedMask entry.object))
      else .ok entry := by
  unfold kphpEnumProcessHandlesForProtection
  congr 2
  obtain ⟨object, _, _, _, _, _⟩ := entry
  cases object with
  | process object =>
      by_cases h : object = target
      · simp [ObObject.owner, ProcessProtection.allowedMask, h]
      · simp [ObObject.owner, h, Ne.symm h]
  | thread thread =>
      by_cases h : w.threadProcess thread = target
      · simp [ObObject.owner, ProcessProtection.allowedMask, h]
      · simp [ObObject.owner, h, Ne.symm h]
  | other => simp [ObObject.owner]

variable {target : π} {protection : ProcessProtection}

theorem kphpEnumProcessHandlesForProtection_ok {dyn : ProtectionDyn} {handle : Nat} {entry entry' : HandleTableEntry π τ}
    (h : kphpEnumProcessHandlesForProtection w dyn target protection handle entry = .ok entry') :
    (∃ access, entry' = { entry with grantedAccess := access }) ∧
      (entry.object.owner w ≠ some target → entry' = entry) ∧
      (entry.object.owner w = some target → isKernelHandle handle = false →
        Within (obpDecodeGrantedAccess entry'.grantedAccess)
          (protection.allowedMask entry.object)) := by
  rw [kphpEnumProcessHandlesForProtection_eq] at h
  split at h
  · next hkernel =>
      obtain rfl := Except.ok.inj h
      exact ⟨⟨_, rfl⟩, fun _ => rfl, fun _ huser => absurd hkernel (by simp [huser])⟩
  · split at h
    · cases h
    · split at h
      · next howner =>
          obtain rfl := Except.ok.inj h
          exact ⟨entry.strip_eq _, fun hno => absurd howner hno, fun _ _ => entry.strip_within _⟩
      · next howner =>
          obtain rfl := Except.ok.inj h
          exact ⟨⟨_, rfl⟩, fun _ => rfl, fun hyes => absurd hyes howner⟩

theorem kphpEnumProcessHandlesForProtection_error {dyn : ProtectionDyn} {handle : Nat}
    {status : NtStatus}
    (h : kphpEnumProcessHandlesForProtection w dyn target protection handle entry =
      .error status) : ntSuccess status = false := by
  rw [kphpEnumProcessHandlesForProtection_eq] at h
  split at h
  · cases h
  · split at h
    · obtain rfl := Except.error.inj h
      decide
    · split at h
      · cases h
      · cases h

theorem kphpEnumProcessContextsForProtection_pass {target process : π}
    {dyn : Option ProtectionDyn} {table : Except NtStatus (HandleTable π τ)}
    (h : kphpEnumProcessContextsForProtection w target process dyn table = .pass) :
    process = target ∨ ∃ status, table = .error status := by
  unfold kphpEnumProcessContextsForProtection at h
  split at h
  · next heq => exact .inl heq
  · split at h
    · cases h
    · cases h
    · unfold kphEnumerateProcessHandlesEx at h
      cases table with
      | error status => exact .inr ⟨status, rfl⟩
      | ok t =>
          cases dyn with
          | none => cases h
          | some dyn =>
              simp only at h
              split at h
              · next herror =>
                  split at herror
                  · obtain rfl := Except.error.inj herror
                    cases h
                  · cases herror
              · cases h

theorem kphpShouldSuppressObjectProtections_error {actor target : π} {status : NtStatus}
    (h : kphpShouldSuppressObjectProtections w actor target = .error status) :
    ntSuccess status = false := by
  unfold kphpShouldSuppressObjectProtections at h
  split at h
  · cases h
  · simp only at h
    split at h
    · next hfail =>
        obtain rfl := Except.error.inj h
        exact hfail
    · cases h

theorem kphpEnumProcessContextsForProtection_stop {target process : π}
    {dyn : Option ProtectionDyn} {table : Except NtStatus (HandleTable π τ)} {status : NtStatus}
    (h : kphpEnumProcessContextsForProtection w target process dyn table = .stop status) :
    ntSuccess status = false := by
  unfold kphpEnumProcessContextsForProtection at h
  split at h
  · cases h
  · split at h
    · next herror =>
        injection h with hstatus
        exact hstatus ▸ kphpShouldSuppressObjectProtections_error herror
    · cases h
    · split at h
      · split at h
        · next hno =>
            injection h with hstatus
            rw [← hstatus, hno]
            decide
        · cases h
      · cases h

variable {info : ObPreOperation π τ}

theorem obTarget_of_guarded {target holder : π} {access : AccessMask}
    {suppressed : Bool}
    (h : Guarded w target holder
      ⟨info.object, access, info.kernelHandle, info.operation, info.actor, suppressed⟩) :
    obTarget w info = some target := by
  have huser : info.kernelHandle = false := h.user
  have howner : info.object.owner w = some target := h.owner
  rw [obTarget, if_neg (by simp [huser]), howner]
  exact if_neg fun heq => h.notOwn heq.symm

theorem within_obAllowedAccessMask {access : AccessMask}
    (hobject : entry.object = info.object) (hoperation : entry.operation = info.operation)
    (hactor : entry.actor = info.actor)
    (h : Within access (obAllowedAccessMask w protection info target)) :
    Within access (permittedMask w protection target entry) := by
  rw [obAllowedAccessMask] at h
  rw [permittedMask, hobject]
  by_cases hpermit : kphpShouldPermitCreatorProcess w info target = true
  · have hcreator : MadeByCreator w target entry := by
      unfold kphpShouldPermitCreatorProcess at hpermit
      split at hpermit
      · cases hpermit
      · next hcreate =>
          split at hpermit
          · cases hpermit
          · next hno =>
              rw [not_or, Bool.not_eq_false, not_ne_iff] at hno
              refine ⟨?_, hactor ▸ hno.1, hactor ▸ hno.2⟩
              rw [hoperation]
              cases hop : info.operation with
              | handleCreate => rfl
              | handleDuplicate => exact absurd hop hcreate
    rw [if_pos hpermit] at h
    rwa [if_pos hcreator]
  · rw [if_neg hpermit] at h
    exact h.or _

theorem kphApplyObProtections_within {protection : π → ProcessProtection} (htarget : obTarget w info = some target)
    (hprotected : (protection target).isProtected = true)
    (hsuppress : (kphApplyObProtections w protection info).2 = false) :
    Within (kphApplyObProtections w protection info).1
      (obAllowedAccessMask w (protection target) info target) := by
  have hunprotected : ¬ (protection target).isProtected = false := by simp [hprotected]
  unfold kphApplyObProtections at hsuppress ⊢
  simp only [htarget, if_neg hunprotected] at hsuppress ⊢
  by_cases hs : obSuppress w info target = true
  · rw [if_pos hs] at hsuppress
    cases hsuppress
  · rw [if_neg hs]
    split
    · exact within_and _ _
    · next h => exact not_ne_iff.mp h

/-! ## Entries after a change of a table -/

theorem setEnumeration_self (s : ProtectionState π τ) (process : π) (e : Option (ProtectionEnum π)) :
    (s.setEnumeration process e).enumeration process = e := Function.update_self ..

theorem setEnumeration_protection (s : ProtectionState π τ) (process : π)
    (e : Option (ProtectionEnum π)) : (s.setEnumeration process e).protection = s.protection := rfl

theorem setProtection_self (s : ProtectionState π τ) (process : π)
    (protection : ProcessProtection) :
    (s.setProtection process protection).protection process = protection := Function.update_self ..

theorem setProtection_of_ne (s : ProtectionState π τ) {p process : π} (h : p ≠ process)
    (protection : ProcessProtection) :
    (s.setProtection process protection).protection p = s.protection p := Function.update_of_ne h ..

variable {s : ProtectionState π τ}

theorem has_setTable {changed holder : π} {handle : Nat} {table : Except NtStatus (HandleTable π τ)} :
    (s.setTable changed table).Has holder handle entry ↔
      (holder = changed ∧ ∃ t, table = .ok t ∧ t handle = some entry) ∨
        (holder ≠ changed ∧ s.Has holder handle entry) := by
  unfold ProtectionState.Has ProtectionState.setTable
  by_cases h : holder = changed
  · subst h
    simp
  · simp [h]

theorem has_update {changed holder : π} {place handle : Nat} {table : HandleTable π τ}
    {new : Option (HandleTableEntry π τ)} (htable : s.handleTable changed = .ok table)
    (h : (s.setTable changed (.ok (Function.update table place new))).Has holder handle entry) :
    (holder = changed ∧ handle = place ∧ new = some entry) ∨
      (¬ (holder = changed ∧ handle = place) ∧ s.Has holder handle entry) := by
  rcases has_setTable.mp h with ⟨rfl, t, ht, hentry⟩ | ⟨hne, hhas⟩
  · obtain rfl := Except.ok.inj ht
    by_cases hplace : handle = place
    · subst hplace
      rw [Function.update_self] at hentry
      exact .inl ⟨rfl, rfl, hentry⟩
    · rw [Function.update_of_ne hplace] at hentry
      exact .inr ⟨fun hboth => hplace hboth.2, table, htable, hentry⟩
  · exact .inr ⟨fun hboth => hne hboth.1, hhas⟩

/-! ## The invariant -/

structure ProtectionInv (w : ProtectionWorld π τ) (s : ProtectionState π τ) : Prop where
  user : ∀ holder handle entry, s.Has holder handle entry → entry.kernelHandle = false →
    isKernelHandle handle = false
  /-- The lock is held by a start that has set `Protected`. -/
  locked : ∀ target e, s.enumeration target = some e → (s.protection target).isProtected = true
  /-- What the enumeration has come to is permitted, if it has met no error. -/
  covered : ∀ target, (s.protection target).isProtected = true →
    (∀ e, s.enumeration target = some e → ntSuccess e.status = true) →
    ∀ holder handle entry, s.Has holder handle entry → Guarded w target holder entry →
      Permitted w (s.protection target) target entry ∨ s.Left target holder handle

theorem Permitted.of_within
    (h : Within (obpDecodeGrantedAccess entry.grantedAccess) (protection.allowedMask entry.object)) :
    Permitted w protection target entry := h.or _

theorem ProtectionInv.of_has {s s' : ProtectionState π τ} (h : ProtectionInv w s)
    (hprotection : s'.protection = s.protection) (henum : s'.enumeration = s.enumeration)
    (hhas : ∀ holder handle entry, s'.Has holder handle entry → s.Has holder handle entry) :
    ProtectionInv w s' := by
  refine ⟨fun holder handle entry hh => h.user holder handle entry (hhas _ _ _ hh), ?_, ?_⟩
  · rw [hprotection, henum]
    exact h.locked
  · intro target hp he holder handle entry hh hg
    rw [hprotection] at hp ⊢
    rw [henum] at he
    have := h.covered target hp he holder handle entry (hhas _ _ _ hh) hg
    rwa [ProtectionState.Left, henum]

/-- One step of the enumeration for `target`: it concerns no other target, and what it
takes from the handles left is permitted or gone. -/
theorem ProtectionInv.advance {s s' : ProtectionState π τ} {e e' : ProtectionEnum π}
    (h : ProtectionInv w s) (he : s.enumeration target = some e)
    (hprotection : s'.protection = s.protection)
    (henum : s'.enumeration = Function.update s.enumeration target (some e'))
    (huser : ∀ holder handle entry, s'.Has holder handle entry →
      ∃ entry₀, s.Has holder handle entry₀ ∧ entry₀.kernelHandle = entry.kernelHandle)
    (hother : ∀ target' holder handle entry, target' ≠ target → s'.Has holder handle entry →
      Guarded w target' holder entry → s.Has holder handle entry)
    (hself : ntSuccess e'.status = true → ntSuccess e.status = true ∧
      ∀ holder handle entry, s'.Has holder handle entry → Guarded w target holder entry →
        Permitted w (s.protection target) target entry ∨
          (s.Has holder handle entry ∧ (e.Left holder handle → e'.Left holder handle))) :
    ProtectionInv w s' := by
  refine ⟨?_, ?_, ?_⟩
  · intro holder handle entry hh hk
    obtain ⟨entry₀, hh₀, hk₀⟩ := huser holder handle entry hh
    exact h.user holder handle entry₀ hh₀ (hk₀.trans hk)
  · intro target' e'' he''
    rw [hprotection]
    by_cases heq : target' = target
    · subst heq
      exact h.locked target' e he
    · rw [henum, Function.update_of_ne heq] at he''
      exact h.locked target' e'' he''
  · intro target' hp hsuccess holder handle entry hh hg
    rw [hprotection] at hp ⊢
    by_cases heq : target' = target
    · subst heq
      have he' : s'.enumeration target' = some e' := by rw [henum, Function.update_self]
      obtain ⟨hstatus, hkept⟩ := hself (hsuccess e' he')
      rcases hkept holder handle entry hh hg with hpermitted | ⟨hh₀, hleft⟩
      · exact .inl hpermitted
      · have hsame : ∀ e₀, s.enumeration target' = some e₀ → ntSuccess e₀.status = true := by
          intro e₀ he₀
          obtain rfl := Option.some.inj (he.symm.trans he₀)
          exact hstatus
        rcases h.covered target' hp hsame holder handle entry hh₀ hg with hpermitted | ⟨e₀, he₀, hl⟩
        · exact .inl hpermitted
        · obtain rfl := Option.some.inj (he.symm.trans he₀)
          exact .inr ⟨e', he', hleft hl⟩
    · have hsame : s'.enumeration target' = s.enumeration target' := by
        rw [henum, Function.update_of_ne heq]
      rw [hsame] at hsuccess
      rw [ProtectionState.Left, hsame]
      exact h.covered target' hp hsuccess holder handle entry
        (hother target' holder handle entry heq hh hg) hg

theorem has_of_handleTable {s s' : ProtectionState π τ} (h : s'.handleTable = s.handleTable)
    {holder : π} {handle : Nat} (hh : s'.Has holder handle entry) :
    s.Has holder handle entry := by
  rwa [ProtectionState.Has, ← h]

theorem ProtectionInv.advance_same {e e' : ProtectionEnum π}
    (h : ProtectionInv w s) (he : s.enumeration target = some e)
    (hself : ntSuccess e'.status = true → ntSuccess e.status = true ∧
      ∀ holder handle entry, s.Has holder handle entry → Guarded w target holder entry →
        e.Left holder handle → e'.Left holder handle) :
    ProtectionInv w (s.setEnumeration target (some e')) := by
  refine h.advance he rfl rfl (fun holder handle entry hh => ⟨entry, hh, rfl⟩)
    (fun _ _ _ _ _ hh _ => hh) fun hstatus => ?_
  obtain ⟨hstatus₀, hleft⟩ := hself hstatus
  exact ⟨hstatus₀, fun holder handle entry hh hg => .inr ⟨hh, hleft holder handle entry hh hg⟩⟩

/-! ## Steps -/

theorem ProtectionInv.visited {target process : π}
    {e : ProtectionEnum π} {todo : List π} (h : ProtectionInv w s)
    (he : s.enumeration target = some e) (hwalk : e.walk = none) (htodo : e.todo = process :: todo)
    (dyn : Option ProtectionDyn) :
    ProtectionInv w (s.visited w target process { e with todo := todo }
      (kphpEnumProcessContextsForProtection w target process dyn (s.handleTable process))) := by
  -- What was left is left still, but for the process context that was visited.
  have hrest : ∀ holder handle, e.Left holder handle →
      holder = process ∨ ({ e with todo := todo } : ProtectionEnum π).Left holder handle := by
    rintro holder handle (hmem | ⟨next, hw, -⟩)
    · rw [htodo] at hmem
      rcases List.mem_cons.mp hmem with heq | hmem
      · exact .inl heq
      · exact .inr (.inl hmem)
    · rw [hwalk] at hw
      cases hw
  cases hvisit : kphpEnumProcessContextsForProtection w target process dyn
      (s.handleTable process) with
  | pass =>
      refine h.advance_same he fun hstatus => ⟨hstatus, fun holder handle entry hh hg hleft => ?_⟩
      rcases hrest holder handle hleft with rfl | hleft
      · rcases kphpEnumProcessContextsForProtection_pass hvisit with heq | ⟨status, herror⟩
        · exact absurd heq hg.holder
        · obtain ⟨table, htable, -⟩ := hh
          rw [herror] at htable
          cases htable
      · exact hleft
  | suppress =>
      have hchange : ∀ holder handle entry,
          (s.setTable process ((s.handleTable process).map (markSuppressed w target))).Has holder
            handle entry →
          (holder ≠ process ∧ s.Has holder handle entry) ∨
            ∃ entry₀, s.Has holder handle entry₀ ∧ entry = if entry₀.object.owner w = some target
              then { entry₀ with suppressed := true } else entry₀ := by
        intro holder handle entry hh
        rcases has_setTable.mp hh with ⟨rfl, t, ht, hentry⟩ | ⟨hne, hh⟩
        · cases htable : s.handleTable holder with
          | error status =>
              rw [htable] at ht
              cases ht
          | ok table =>
              rw [htable] at ht
              obtain rfl := Except.ok.inj ht
              obtain ⟨entry₀, hentry₀, rfl⟩ := Option.map_eq_some_iff.mp hentry
              exact .inr ⟨entry₀, ⟨table, htable, hentry₀⟩, rfl⟩
        · exact .inl ⟨hne, hh⟩
      refine h.advance he rfl rfl ?_ ?_ ?_
      · intro holder handle entry hh
        rcases hchange holder handle entry hh with ⟨-, hh⟩ | ⟨entry₀, hh₀, rfl⟩
        · exact ⟨entry, hh, rfl⟩
        · refine ⟨entry₀, hh₀, ?_⟩
          split
          · rfl
          · rfl
      · intro target' holder handle entry hne hh hg
        rcases hchange holder handle entry hh with ⟨-, hh⟩ | ⟨entry₀, hh₀, rfl⟩
        · exact hh
        · by_cases howner : entry₀.object.owner w = some target
          · rw [if_pos howner] at hg
            exact absurd (Option.some.inj (hg.owner.symm.trans howner)) hne
          · rwa [if_neg howner]
      · refine fun hstatus => ⟨hstatus, fun holder handle entry hh hg => .inr ?_⟩
        rcases hchange holder handle entry hh with ⟨hne, hh⟩ | ⟨entry₀, hh₀, rfl⟩
        · exact ⟨hh, fun hleft => (hrest holder handle hleft).resolve_left hne⟩
        · by_cases howner : entry₀.object.owner w = some target
          · rw [if_pos howner] at hg
            exact absurd hg.notSuppressed (by simp)
          · rw [if_neg howner] at hg
            exact absurd hg.owner howner
  | walk =>
      refine h.advance_same he fun hstatus => ⟨hstatus, fun holder handle entry hh hg hleft => ?_⟩
      rcases hrest holder handle hleft with rfl | (hmem | ⟨next, hw, -⟩)
      · exact .inr ⟨0, rfl, Nat.zero_le _⟩
      · exact .inl hmem
      · rw [hwalk] at hw
        cases hw
  | stop status =>
      refine h.advance_same he fun hstatus => ?_
      have hfail := kphpEnumProcessContextsForProtection_stop hvisit
      rw [show ntSuccess status = true from hstatus] at hfail
      cases hfail

theorem ProtectionInv.entered {target process : π}
    {e : ProtectionEnum π} {next handle : Nat} {table : HandleTable π τ} (h : ProtectionInv w s) (he : s.enumeration target = some e)
    (hwalk : e.walk = some (process, next)) (htable : s.handleTable process = .ok table)
    (hskip : ∀ i, next ≤ i → i < handle → table i = none) (hentry : table handle = some entry) :
    ProtectionInv w (s.entered target process e table handle
      (kphpEnumProcessHandlesForProtection w e.dyn target (s.protection target) handle entry)) := by
  have hhas : s.Has process handle entry := ⟨table, htable, hentry⟩
  cases hcall : kphpEnumProcessHandlesForProtection w e.dyn target (s.protection target) handle
      entry with
  | error status =>
      refine h.advance_same he fun hstatus => ?_
      have hfail := kphpEnumProcessHandlesForProtection_error hcall
      rw [show ntSuccess status = true from hstatus] at hfail
      cases hfail
  | ok entry' =>
      obtain ⟨⟨access, hsame⟩, hforeign, hstripped⟩ := kphpEnumProcessHandlesForProtection_ok hcall
      refine h.advance he rfl rfl ?_ ?_ ?_
      · intro holder i entry₁ hh
        rcases has_update htable hh with ⟨rfl, rfl, hnew⟩ | ⟨-, hh⟩
        · obtain rfl := Option.some.inj hnew
          exact ⟨entry, hhas, by rw [hsame]⟩
        · exact ⟨entry₁, hh, rfl⟩
      · intro target' holder i entry₁ hne hh hg
        rcases has_update htable hh with ⟨rfl, rfl, hnew⟩ | ⟨-, hh⟩
        · obtain rfl := Option.some.inj hnew
          have howner : entry.object.owner w = some target' := by
            have := hg.owner
            rwa [hsame] at this
          rw [hforeign fun hyes => hne (Option.some.inj (howner.symm.trans hyes))]
          exact hhas
        · exact hh
      · refine fun hstatus => ⟨hstatus, fun holder i entry₁ hh hg => ?_⟩
        rcases has_update htable hh with ⟨rfl, rfl, hnew⟩ | ⟨hother, hh⟩
        · obtain rfl := Option.some.inj hnew
          have howner : entry.object.owner w = some target := by
            have := hg.owner
            rwa [hsame] at this
          have huser : entry.kernelHandle = false := by
            have := hg.user
            rwa [hsame] at this
          refine .inl (.of_within ?_)
          have hobject : entry'.object = entry.object := by rw [hsame]
          rw [hobject]
          exact hstripped howner (h.user _ _ _ hhas huser)
        · refine .inr ⟨hh, ?_⟩
          rintro (hmem | ⟨next', hw, hle⟩)
          · exact .inl hmem
          · obtain ⟨rfl, rfl⟩ := Prod.mk.inj (Option.some.inj (hwalk.symm.trans hw))
            -- The handles up to this one are gone or were visited.
            refine .inr ⟨handle + 1, rfl, ?_⟩
            obtain ⟨t, ht, hentry₁⟩ := hh
            obtain rfl := Except.ok.inj (htable.symm.trans ht)
            by_contra hlt
            have hcase : i < handle ∨ i = handle := by omega
            rcases hcase with hlt | heq
            · rw [hskip i hle hlt] at hentry₁
              cases hentry₁
            · exact hother ⟨rfl, heq⟩

theorem ProtectionInv.handle (h : ProtectionInv w s) {holder : π} {handle : Nat} {table : HandleTable π τ}
    {grantedAccess : AccessMask} (htable : s.handleTable holder = .ok table)
    (huser : info.kernelHandle = false → isKernelHandle handle = false)
    (hgranted : obpDecodeGrantedAccess grantedAccess =
      obpDecodeGrantedAccess (kphApplyObProtections w s.protection info).1) :
    ProtectionInv w (s.setTable holder (.ok (Function.update table handle (some
      ⟨info.object, grantedAccess, info.kernelHandle, info.operation, info.actor,
        (kphApplyObProtections w s.protection info).2⟩)))) := by
  refine ⟨?_, h.locked, ?_⟩
  · intro holder' i entry hh hk
    rcases has_update htable hh with ⟨rfl, rfl, hnew⟩ | ⟨-, hh⟩
    · obtain rfl := Option.some.inj hnew
      exact huser hk
    · exact h.user _ _ _ hh hk
  · intro target hp hsuccess holder' i entry hh hg
    rcases has_update htable hh with ⟨rfl, rfl, hnew⟩ | ⟨-, hh⟩
    · obtain rfl := Option.some.inj hnew
      refine .inl ?_
      have hwithin := kphApplyObProtections_within (obTarget_of_guarded hg) hp hg.notSuppressed
      rw [Permitted, hgranted]
      exact (within_obAllowedAccessMask rfl rfl rfl hwithin).decode
    · exact h.covered target hp hsuccess holder' i entry hh hg

theorem ProtectionInv.change {s s' : ProtectionState π τ} (process : π) (h : ProtectionInv w s)
    (htable : s'.handleTable = s.handleTable)
    (hother : ∀ p, p ≠ process → s'.protection p = s.protection p ∧
      s'.enumeration p = s.enumeration p)
    (hlocked : ∀ e, s'.enumeration process = some e → (s'.protection process).isProtected = true)
    (hself : (s'.protection process).isProtected = true →
      ∀ holder handle entry, s.Has holder handle entry → Guarded w process holder entry →
        Permitted w (s'.protection process) process entry ∨ s'.Left process holder handle) :
    ProtectionInv w s' := by
  refine ⟨fun holder handle entry hh => h.user _ _ _ (has_of_handleTable htable hh), ?_, ?_⟩
  · intro p e he
    by_cases heq : p = process
    · exact heq ▸ hlocked e (heq ▸ he)
    · rw [(hother p heq).2] at he
      rw [(hother p heq).1]
      exact h.locked p e he
  · intro p hp hsuccess holder handle entry hh hg
    have hh := has_of_handleTable htable hh
    by_cases heq : p = process
    · subst heq
      exact hself hp holder handle entry hh hg
    · obtain ⟨hprotection, henum⟩ := hother p heq
      rw [hprotection] at hp ⊢
      rw [henum] at hsuccess
      rw [ProtectionState.Left, henum]
      exact h.covered p hp hsuccess holder handle entry hh hg

theorem ProtectionInv.finished {process : π} {e : ProtectionEnum π}
    (h : ProtectionInv w s) (he : s.enumeration process = some e) (hwalk : e.walk = none)
    (htodo : e.todo = []) : ProtectionInv w (s.finished process e.status) := by
  have hempty : ∀ holder handle, ¬ s.Left process holder handle := by
    rintro holder handle ⟨e', he', hmem | ⟨next, hw, -⟩⟩
    · rw [Option.some.inj (he'.symm.trans he), htodo] at hmem
      cases hmem
    · rw [Option.some.inj (he'.symm.trans he), hwalk] at hw
      cases hw
  unfold ProtectionState.finished
  by_cases hstatus : ntSuccess e.status = true
  · rw [if_pos hstatus]
    refine h.change process rfl
      (fun p hne => ⟨rfl, Function.update_of_ne hne _ _⟩) ?_ ?_
    · intro e' he'
      rw [setEnumeration_self] at he'
      cases he'
    · intro hp holder handle entry hh hg
      refine .inl ((h.covered process hp ?_ holder handle entry hh hg).resolve_right
        (hempty holder handle))
      intro e' he'
      rwa [Option.some.inj (he'.symm.trans he)]
  · rw [if_neg hstatus]
    refine h.change process rfl
      (fun p hne => ⟨Function.update_of_ne hne _ _, Function.update_of_ne hne _ _⟩) ?_ ?_
    · intro e' he'
      rw [setEnumeration_self] at he'
      cases he'
    · intro hp
      rw [setEnumeration_protection, setProtection_self] at hp
      cases hp

theorem ProtectionStep.inv {s s' : ProtectionState π τ} {a : ProtectionEvent π}
    (hstep : ProtectionStep w s a s') (h : ProtectionInv w s) : ProtectionInv w s' := by
  cases hstep with
  | startRefused => exact h
  | startAlready => exact h
  | startLocked process dyn processMask threadMask hlock hprotected =>
      refine h.change process rfl
        (fun p hne => ⟨Function.update_of_ne hne _ _, Function.update_of_ne hne _ _⟩) ?_ ?_
      · intro e _
        rw [setEnumeration_protection, setProtection_self]
      · intro _ holder handle entry _ _
        exact .inr ⟨_, setEnumeration_self .., .inl (w.tracked holder)⟩
  | visit _ dyn he hwalk htodo => exact h.visited he hwalk htodo dyn
  | entry _ _ he hwalk htable _ hskip hentry => exact h.entered he hwalk htable hskip hentry
  | walked target he hwalk htable hend =>
      refine h.advance_same he fun hstatus => ⟨hstatus, fun holder handle entry hh _ => ?_⟩
      rintro (hmem | ⟨next', hw, hle⟩)
      · exact .inl hmem
      · obtain ⟨rfl, rfl⟩ := Prod.mk.inj (Option.some.inj (hwalk.symm.trans hw))
        obtain ⟨t, ht, hentry⟩ := hh
        obtain rfl := Except.ok.inj (htable.symm.trans ht)
        rw [hend handle hle] at hentry
        cases hentry
  | startReturned process he hwalk htodo hstatus => exact hstatus ▸ h.finished he hwalk htodo
  | @stop process hlock =>
      refine h.change process rfl
        (fun p hne => ⟨Function.update_of_ne hne _ _, rfl⟩) ?_ ?_
      · intro e he
        cases hlock.symm.trans he
      · intro hp
        rw [setProtection_self] at hp
        cases hp
  | handle info _ htable _ huser hgranted => exact h.handle htable huser hgranted
  | close handle htable =>
      refine h.of_has rfl rfl fun holder' i entry hh => ?_
      rcases has_update htable hh with ⟨-, -, hnew⟩ | ⟨-, hh⟩
      · cases hnew
      · exact hh
  | exit holder _ =>
      refine h.of_has rfl rfl fun holder' i entry hh => ?_
      rcases has_setTable.mp hh with ⟨-, t, ht, -⟩ | ⟨-, hh⟩
      · cases ht
      · exact hh

/-! ## Runs -/

/-- Nothing is protected yet; the handles are any. -/
structure ProtectionStart (s : ProtectionState π τ) : Prop where
  unprotected : ∀ process, (s.protection process).isProtected = false
  unlocked : ∀ process, s.enumeration process = none
  user : ∀ holder handle entry, s.Has holder handle entry → entry.kernelHandle = false →
    isKernelHandle handle = false

/-- `process` is protected and nobody holds its lock. -/
def Shielded (process : π) (s : ProtectionState π τ) : Prop :=
  (s.protection process).isProtected = true ∧ s.enumeration process = none

theorem ProtectionStart.inv (h : ProtectionStart s) :
    ProtectionInv w s := by
  refine ⟨h.user, fun target e he => ?_, fun target hp => ?_⟩
  · rw [h.unlocked target] at he
    cases he
  · rw [h.unprotected target] at hp
    cases hp

theorem ProtectionStep.shielded_of_started {s s' : ProtectionState π τ} {process : π}
    {status : NtStatus} (hstep : ProtectionStep w s (.started process status) s')
    (h : ProtectionInv w s) (hsuccess : ntSuccess status = true) : Shielded process s' := by
  cases hstep with
  | startRefused _ hstatus =>
      rcases hstatus with rfl | rfl
      · cases hsuccess
      · cases hsuccess
  | startAlready hlock hprotected => exact ⟨hprotected, hlock⟩
  | startReturned _ he _ _ _ =>
      rw [ProtectionState.finished, if_pos hsuccess]
      exact ⟨h.locked process _ he, setEnumeration_self ..⟩

theorem ProtectionStep.shielded {s s' : ProtectionState π τ} {a : ProtectionEvent π} {process : π}
    (h : Shielded process s) (ha : a ≠ .stopped process) (hstep : ProtectionStep w s a s') :
    Shielded process s' := by
  obtain ⟨hprotected, hlock⟩ := h
  have hbusy : ∀ {target : π} {e : ProtectionEnum π}, s.enumeration target = some e →
      process ≠ target := by
    rintro target e he rfl
    cases hlock.symm.trans he
  cases hstep with
  | startRefused => exact ⟨hprotected, hlock⟩
  | startAlready => exact ⟨hprotected, hlock⟩
  | startLocked started _ _ _ _ hun =>
      have hne : process ≠ started := by
        rintro rfl
        cases hprotected.symm.trans hun
      refine ⟨?_, (Function.update_of_ne hne _ _).trans hlock⟩
      rw [setEnumeration_protection, setProtection_of_ne _ hne]
      exact hprotected
  | @visit target visited _ _ dyn he _ _ =>
      have hne := hbusy he
      cases kphpEnumProcessContextsForProtection w target visited dyn (s.handleTable visited) with
      | pass => exact ⟨hprotected, (Function.update_of_ne hne _ _).trans hlock⟩
      | suppress => exact ⟨hprotected, (Function.update_of_ne hne _ _).trans hlock⟩
      | walk => exact ⟨hprotected, (Function.update_of_ne hne _ _).trans hlock⟩
      | stop => exact ⟨hprotected, (Function.update_of_ne hne _ _).trans hlock⟩
  | @entry target _ e _ handle _ entry he _ _ _ _ _ =>
      have hne := hbusy he
      cases kphpEnumProcessHandlesForProtection w e.dyn target (s.protection target) handle
        entry with
      | ok => exact ⟨hprotected, (Function.update_of_ne hne _ _).trans hlock⟩
      | error => exact ⟨hprotected, (Function.update_of_ne hne _ _).trans hlock⟩
  | walked _ he _ _ _ => exact ⟨hprotected, (Function.update_of_ne (hbusy he) _ _).trans hlock⟩
  | startReturned _ he _ _ _ =>
      have hne := hbusy he
      rw [ProtectionState.finished]
      split
      · exact ⟨hprotected, (Function.update_of_ne hne _ _).trans hlock⟩
      · refine ⟨?_, (Function.update_of_ne hne _ _).trans hlock⟩
        rw [setEnumeration_protection, setProtection_of_ne _ hne]
        exact hprotected
  | @stop stopped _ =>
      have hne : process ≠ stopped := by
        rintro rfl
        exact ha rfl
      refine ⟨?_, hlock⟩
      rw [setProtection_of_ne _ hne]
      exact hprotected
  | handle => exact ⟨hprotected, hlock⟩
  | close => exact ⟨hprotected, hlock⟩
  | exit => exact ⟨hprotected, hlock⟩

theorem Shielded.confined {process : π} (h : Shielded process s)
    (hinv : ProtectionInv w s) : Confined w s process := by
  intro holder handle entry hh hg
  have hfree : ∀ e, s.enumeration process = some e → ntSuccess e.status = true := by
    intro e he
    cases h.2.symm.trans he
  refine (hinv.covered process h.1 hfree holder handle entry hh hg).resolve_right ?_
  rintro ⟨e, he, -⟩
  cases h.2.symm.trans he

/-- In every run, from a successful start of the protection of a process until it is
stopped, the handles the protection is about grant only what is permitted. -/
theorem protectedProcess_confined {s₀ s : ProtectionState π τ} {before after : List (ProtectionEvent π)}
    {process : π} {status : NtStatus} (hstart : ProtectionStart s₀)
    (hrun : Run (ProtectionStep w) s₀ (before ++ .started process status :: after) s)
    (hsuccess : ntSuccess status = true) (hafter : ∀ a ∈ after, a ≠ .stopped process) :
    Confined w s process := by
  obtain ⟨s₁, hbefore, hrest⟩ := hrun.split
  obtain ⟨s₂, hstep, hrest⟩ := hrest.head
  have hinv₁ := hbefore.inv (fun _ _ _ h hs => ProtectionStep.inv hs h) hstart.inv
  have hinv : ProtectionInv w s :=
    hrest.inv (fun _ _ _ h hs => ProtectionStep.inv hs h) (hstep.inv hinv₁)
  have hshielded : Shielded process s :=
    hrest.inv_while (fun _ _ _ h ha hs => ProtectionStep.shielded h ha hs) hafter
      (hstep.shielded_of_started hinv₁ hsuccess)
  exact hshielded.confined hinv

end

/-- Two processes: `false` is to be protected, `true` holds a handle to it. -/
def pairWorld : ProtectionWorld Bool Bool where
  processes := [true, false]
  tracked := by decide
  processId := fun process => if process then 8 else 12
  threadProcess := id
  isCreatingProcess := fun _ => false
  isCreatingProcessId := fun _ => 0
  dominationCheck := fun _ _ => statusSuccess
  processIsLsass := fun _ => (statusSuccess, false)
  processState := fun _ => 0

def pairTable : HandleTable Bool Bool := fun handle =>
  if handle = 4 then some ⟨.process false, 0x1fffff, false, .handleCreate, true, false⟩ else none

def pairState : ProtectionState Bool Bool where
  protection := fun _ => .stopped
  handleTable := fun process => .ok (if process then pairTable else fun _ => none)
  enumeration := fun _ => none

theorem pairState_start : ProtectionStart pairState := by
  refine ⟨fun _ => rfl, fun _ => rfl, ?_⟩
  rintro holder handle entry ⟨table, htable, hentry⟩ -
  cases holder with
  | false =>
      obtain rfl := Except.ok.inj htable
      cases hentry
  | true =>
      obtain rfl := Except.ok.inj htable
      have hfour : handle = 4 := by
        by_contra hne
        rw [if_pos rfl, pairTable, if_neg hne] at hentry
        cases hentry
      rw [hfour]
      decide

/-- The protection starts with the handle there, and the handle is left with less. -/
theorem protectedProcess_confined_pair :
    ∃ s, Run (ProtectionStep pairWorld) pairState
        ([.silent, .silent, .silent, .silent, .silent] ++ [.started false statusSuccess]) s ∧
      Confined pairWorld s false := by
  have hrun : ∃ s, Run (ProtectionStep pairWorld) pairState
      ([.silent, .silent, .silent, .silent, .silent] ++ [.started false statusSuccess]) s :=
    ⟨_, .cons (.startLocked false ⟨16, 0, 0⟩ 0x1000 0x800 rfl rfl) <|
      .cons (.visit false (some ⟨16, 0, 0⟩) rfl rfl rfl) <|
      .cons (.entry false 4 rfl rfl rfl (Nat.zero_le 4) (fun i _ hi => if_neg (by omega)) rfl) <|
      .cons (.walked false rfl rfl rfl fun i hi =>
        (Function.update_of_ne (by omega) _ _).trans (if_neg (by omega))) <|
      .cons (.visit false none rfl rfl rfl) <|
      .cons (.startReturned false rfl rfl rfl rfl) (.nil _)⟩
  obtain ⟨s, hrun⟩ := hrun
  exact ⟨s, hrun, protectedProcess_confined pairState_start hrun rfl (by simp)⟩

end SystemInformer.Driver
