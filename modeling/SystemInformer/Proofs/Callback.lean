import SystemInformer.Lib.Census
import SystemInformer.Lib.ListWalk
import SystemInformer.PhLib.Callback

/-!
# Callbacks keep their registrations

A thread in `PhInvokeCallback` that is at a registration either has the lock of the list or
has counted itself in `Busy` of that registration, and both keep others from removing it: one
removes with the lock held exclusively and only what nobody has counted himself in. So the
place of every walk stays linked, and what lies behind it does not change for the
registrations that stay. Each of these that lies behind was called once, since the walk went
past it by a call, and each that lies in front was not called.

Storage is in the list or not depending on what the caller uses it for. When
`PhUnregisterCallback` returns, its registration is not in the list, and no walk is at it
until it is registered again.
-/

namespace SystemInformer.PhLib

open RwLock ListWalk

variable {τ κ : Type}

namespace CallbackPc

def hold : CallbackPc κ → Hold
  | .insertTailList _ => .exclusive
  | .registerRelease _ => .exclusive
  | .testBusy _ => .exclusive
  | .waitRelease _ => .exclusive
  | .removeEntryList _ => .exclusive
  | .unregisterRelease _ => .exclusive
  | .readFlink _ => .shared
  | .testUnregistering _ => .shared
  | .incrementBusy _ => .shared
  | .callRelease _ => .shared
  | .decrementBusy _ => .shared
  | .pulse _ _ => .shared
  | .invokeRelease => .shared
  | _ => .nothing

/-- The registration that a thread registers or unregisters. -/
def owner : CallbackPc κ → Option κ
  | .initRegistration r => some r
  | .registerAcquire r => some r
  | .insertTailList r => some r
  | .registerRelease r => some r
  | .registered r => some r
  | .storeUnregistering r => some r
  | .unregisterAcquire r => some r
  | .testBusy r => some r
  | .waitRelease r => some r
  | .waiting r => some r
  | .removeEntryList r => some r
  | .unregisterRelease r => some r
  | .unregistered r => some r
  | _ => none

/-- The registration that a thread owns is not in the list. -/
def unlinked : CallbackPc κ → Bool
  | .initRegistration _ => true
  | .registerAcquire _ => true
  | .insertTailList _ => true
  | .unregisterRelease _ => true
  | .unregistered _ => true
  | _ => false

/-- The registration that nobody counts himself in. -/
def still : CallbackPc κ → Option κ
  | .registerAcquire r => some r
  | .insertTailList r => some r
  | .removeEntryList r => some r
  | _ => none

/-- The registration that a thread has counted itself in. -/
def pins : CallbackPc κ → Option κ
  | .callRelease r => some r
  | .call r => some r
  | .running r => some r
  | .callAcquire r => some r
  | .decrementBusy r => some r
  | _ => none

def walk : CallbackPc κ → Option (Walk κ)
  | .invokeAcquire => some .start
  | .readFlink none => some .start
  | .readFlink (some r) => some (.past r)
  | .testUnregistering r => some (.before r)
  | .incrementBusy r => some (.before r)
  | .callRelease r => some (.before r)
  | .call r => some (.before r)
  | .running r => some (.past r)
  | .callAcquire r => some (.past r)
  | .decrementBusy r => some (.past r)
  | .pulse r _ => some (.past r)
  | .invokeRelease => some .finished
  | .invoked => some .finished
  | _ => none

def cursor (pc : CallbackPc κ) : Option κ := pc.walk.bind Walk.cursor

/-- All that a place tells but what is held of the lock. -/
def tells (pc : CallbackPc κ) : Option κ × Option κ × Bool × Option κ × Option (Walk κ) :=
  (pc.pins, pc.owner, pc.unlinked, pc.still, pc.walk)

theorem cursor_kept {pc : CallbackPc κ} {r : κ} (h : pc.cursor = some r) :
    pc.hold = .shared ∨ pc.pins = some r := by
  cases pc with
  | readFlink listEntry => exact .inl rfl
  | testUnregistering r => exact .inl rfl
  | incrementBusy r => exact .inl rfl
  | callRelease r => exact .inl rfl
  | decrementBusy r => exact .inl rfl
  | pulse r busy => exact .inl rfl
  | call r => exact .inr h
  | running r => exact .inr h
  | callAcquire r => exact .inr h
  | _ => exact absurd h (by simp [cursor, walk, Walk.cursor])

theorem cursor_of_pins {pc : CallbackPc κ} {r : κ} (h : pc.pins = some r) :
    pc.cursor = some r := by
  cases pc with
  | callRelease r => exact h
  | call r => exact h
  | running r => exact h
  | callAcquire r => exact h
  | decrementBusy r => exact h
  | _ => exact absurd h (by simp [pins])

theorem still_owner {pc : CallbackPc κ} {r : κ} (h : pc.still = some r) :
    pc.owner = some r ∧ (pc.unlinked = true ∨ pc.hold = .exclusive) := by
  cases pc with
  | registerAcquire r => exact ⟨h, .inl rfl⟩
  | insertTailList r => exact ⟨h, .inl rfl⟩
  | removeEntryList r => exact ⟨h, .inr rfl⟩
  | _ => exact absurd h (by simp [still])

variable [DecidableEq τ] {listLock : RwLock τ} {f : τ → CallbackPc κ} {t : τ} {pc : CallbackPc κ}

theorem hold_goto (h : listLock.Agrees (Function.update (fun u => (f u).hold) t pc.hold)) :
    listLock.Agrees fun u => (Function.update f t pc u).hold := by
  intro u
  rw [h u]
  exact (Function.apply_update (fun _ => hold) f t pc u).symm

theorem pins_goto (hpins : pc.pins = (f t).pins) (u : τ) :
    (Function.update f t pc u).pins = (f u).pins := by
  by_cases hu : u = t
  · rw [hu, Function.update_self, hpins]
  · rw [Function.update_of_ne hu]

end CallbackPc

section

variable [DecidableEq κ]

/-- What the place of a thread tells about the data: about the list, the registrations and
their storage, and about what the call it makes has done. -/
structure PlaceInv (listHead : List κ) (registration : κ → CallbackRegistration)
    (storage : κ → StorageUse τ) (steady : κ → Bool) (calls : κ → Nat) (t : τ)
    (pc : CallbackPc κ) : Prop where
  taken : ∀ r, pc.owner = some r → storage r = .taken t
  linked : ∀ r, pc.owner = some r → (r ∈ listHead ↔ pc.unlinked = false)
  still : ∀ r, pc.still = some r → (registration r).busy = 0
  cursor : ∀ r, pc.cursor = some r → r ∈ listHead
  called : ∀ w, pc.walk = some w → ∀ r, steady r = true →
    calls r = if r ∈ w.visited listHead then 1 else 0

namespace PlaceInv

variable {listHead : List κ} {registration : κ → CallbackRegistration}
  {storage : κ → StorageUse τ} {steady : κ → Bool} {calls : κ → Nat} {t : τ}
  {pc pc' : CallbackPc κ} {r : κ}

theorem same (h : PlaceInv listHead registration storage steady calls t pc)
    (htells : pc'.tells = pc.tells) :
    PlaceInv listHead registration storage steady calls t pc' := by
  simp only [CallbackPc.tells, Prod.mk.injEq] at htells
  obtain ⟨-, howner, hunlinked, hstill, hwalk⟩ := htells
  constructor
  case taken => exact fun r hr => h.taken r (howner ▸ hr)
  case linked =>
    intro r hr
    rw [hunlinked]
    exact h.linked r (howner ▸ hr)
  case still => exact fun r hr => h.still r (hstill ▸ hr)
  case cursor =>
    intro r hr
    rw [CallbackPc.cursor, hwalk] at hr
    exact h.cursor r hr
  case called => exact fun w hw => h.called w (hwalk ▸ hw)

theorem own (howner : pc.owner = some r) (htaken : storage r = .taken t)
    (hlinked : r ∈ listHead ↔ pc.unlinked = false) (hstill : pc.still = none)
    (hwalk : pc.walk = none) : PlaceInv listHead registration storage steady calls t pc where
  taken x hx := by
    rw [howner, Option.some.injEq] at hx
    exact hx ▸ htaken
  linked x hx := by
    rw [howner, Option.some.injEq] at hx
    exact hx ▸ hlinked
  still x hx := by
    rw [hstill] at hx
    cases hx
  cursor x hx := by
    rw [CallbackPc.cursor, hwalk] at hx
    cases hx
  called w hw := by
    rw [hwalk] at hw
    cases hw

theorem setRegistration (h : PlaceInv listHead registration storage steady calls t pc)
    (content : CallbackRegistration) (hr : pc.still ≠ some r) :
    PlaceInv listHead (Function.update registration r content) storage steady calls t pc where
  taken := h.taken
  linked := h.linked
  still x hx := by
    have hne : x ≠ r := fun heq => hr (heq ▸ hx)
    rw [Function.update_of_ne hne]
    exact h.still x hx
  cursor := h.cursor
  called := h.called

theorem setStorage (h : PlaceInv listHead registration storage steady calls t pc)
    (use : StorageUse τ) (hr : pc.owner ≠ some r) :
    PlaceInv listHead registration (Function.update storage r use) steady calls t pc where
  taken x hx := by
    have hne : x ≠ r := fun heq => hr (heq ▸ hx)
    rw [Function.update_of_ne hne]
    exact h.taken x hx
  linked := h.linked
  still := h.still
  cursor := h.cursor
  called := h.called

theorem unsettle (h : PlaceInv listHead registration storage steady calls t pc) (r : κ) :
    PlaceInv listHead registration storage (Function.update steady r false) calls t pc where
  taken := h.taken
  linked := h.linked
  still := h.still
  cursor := h.cursor
  called w hw x hx := by
    by_cases hne : x = r
    · subst hne
      simp at hx
    · rw [Function.update_of_ne hne] at hx
      exact h.called w hw x hx

theorem walk_cursor (h : PlaceInv listHead registration storage steady calls t pc) {w : Walk κ}
    (hw : pc.walk = some w) : ∀ c, w.cursor = some c → c ∈ listHead := by
  intro c hc
  refine h.cursor c ?_
  rw [CallbackPc.cursor, hw]
  exact hc

theorem insert (h : PlaceInv listHead registration storage steady calls t pc)
    (hsteady : ∀ x, steady x = true → x ∈ listHead) (hr : pc.owner ≠ some r) :
    PlaceInv (listHead ++ [r]) registration storage steady calls t pc where
  taken := h.taken
  linked x hx := by
    have hne : x ≠ r := fun heq => hr (heq ▸ hx)
    simpa [hne] using h.linked x hx
  still := h.still
  cursor x hx := List.mem_append_left _ (h.cursor x hx)
  called w hw x hx := by
    have hsame := Walk.mem_visited_append (b := [r]) (h.walk_cursor hw) (hsteady x hx)
    simpa only [hsame] using h.called w hw x hx

theorem remove (h : PlaceInv listHead registration storage steady calls t pc)
    (hr : pc.owner ≠ some r) (hcursor : pc.cursor ≠ some r) :
    PlaceInv (listHead.erase r) registration storage (Function.update steady r false) calls t
      pc where
  taken := h.taken
  linked x hx := by
    have hne : x ≠ r := fun heq => hr (heq ▸ hx)
    rw [List.mem_erase_of_ne hne]
    exact h.linked x hx
  still := h.still
  cursor x hx := by
    have hne : x ≠ r := fun heq => hcursor (heq ▸ hx)
    exact (List.mem_erase_of_ne hne).mpr (h.cursor x hx)
  called w hw x hx := by
    by_cases hne : x = r
    · subst hne
      simp at hx
    · rw [Function.update_of_ne hne] at hx
      have hnot : w.cursor ≠ some r := by
        intro hc
        refine hcursor ?_
        rw [CallbackPc.cursor, hw]
        exact hc
      have hsame := Walk.mem_visited_erase (h.walk_cursor hw) hnot hne
      simpa only [hsame] using h.called w hw x hx

end PlaceInv

structure CallbackInv [DecidableEq τ] (s : CallbackState τ κ) : Prop where
  nodup : s.listHead.Nodup
  lock : s.listLock.Agrees fun t => (s.pc t).hold
  free : ∀ r, s.storage r = .free → r ∉ s.listHead
  registered : ∀ r, s.storage r = .registered → r ∈ s.listHead
  busy : ∀ r ∈ s.listHead, ∃ n : Nat, (s.registration r).busy = n ∧
    Census.Tally (fun t => (s.pc t).pins = some r) n
  steady : ∀ t r, s.steady t r = true → r ∈ s.listHead ∧ (s.registration r).unregistering = false
  place : ∀ t, PlaceInv s.listHead s.registration s.storage (s.steady t) (s.calls t) t (s.pc t)

namespace CallbackInv

variable [DecidableEq τ] {s : CallbackState τ κ} {t u : τ} {r : κ} {pc' : CallbackPc κ}

theorem other_owner (h : CallbackInv s) (ht : (s.pc t).owner = some r) (hu : u ≠ t) :
    (s.pc u).owner ≠ some r := by
  intro howner
  have htaken := (h.place u).taken r howner
  rw [(h.place t).taken r ht, StorageUse.taken.injEq] at htaken
  exact hu htaken.symm

theorem free_owner (h : CallbackInv s) (hfree : s.storage r = .free) (u : τ) :
    (s.pc u).owner ≠ some r := by
  intro howner
  have htaken := (h.place u).taken r howner
  rw [hfree] at htaken
  cases htaken

theorem registered_owner (h : CallbackInv s) (hregistered : s.storage r = .registered) (u : τ) :
    (s.pc u).owner ≠ some r := by
  intro howner
  have htaken := (h.place u).taken r howner
  rw [hregistered] at htaken
  cases htaken

/-- While somebody shares the lock, whoever needs that nobody is counted is not at a
registration of the list. -/
theorem linked_still (h : CallbackInv s) (hr : r ∈ s.listHead) (ht : (s.pc t).hold = .shared)
    (u : τ) : (s.pc u).still ≠ some r := by
  intro hstill
  obtain ⟨howner, hunlinked | hhold⟩ := CallbackPc.still_owner hstill
  · rw [((h.place u).linked r howner).mp hr] at hunlinked
    cases hunlinked
  · have hsame := h.lock.alone hhold (u := t) (by simp [ht])
    rw [← hsame, ht] at hhold
    cases hhold

theorem remove_cursor (h : CallbackInv s) (ht : (s.pc t).hold = .exclusive) (hr : r ∈ s.listHead)
    (hbusy : (s.registration r).busy = 0) (hu : u ≠ t) : (s.pc u).cursor ≠ some r := by
  intro hcursor
  rcases CallbackPc.cursor_kept hcursor with hshared | hpins
  · exact hu (h.lock.alone ht (by simp [hshared]))
  · obtain ⟨n, hn, htally⟩ := h.busy r hr
    have hzero : n = 0 := by
      rw [hbusy] at hn
      exact_mod_cast hn.symm
    rw [hzero] at htally
    exact htally.not_of_zero u hpins

theorem lock_keep (h : CallbackInv s) (hhold : pc'.hold = (s.pc t).hold) :
    s.listLock.Agrees fun u => (Function.update s.pc t pc' u).hold :=
  CallbackPc.hold_goto (h.lock.keep hhold)

theorem busy_keep (h : CallbackInv s) (hpins : pc'.pins = (s.pc t).pins) (hr : r ∈ s.listHead) :
    ∃ n : Nat, (s.registration r).busy = n ∧
      Census.Tally (fun u => (Function.update s.pc t pc' u).pins = some r) n := by
  obtain ⟨n, hn, htally⟩ := h.busy r hr
  refine ⟨n, hn, htally.congr fun u => ?_⟩
  rw [CallbackPc.pins_goto hpins]

theorem quiet (h : CallbackInv s) {listLock : RwLock τ}
    (hlock : listLock.Agrees fun u => (Function.update s.pc t pc' u).hold)
    (hpins : pc'.pins = (s.pc t).pins)
    (hplace : PlaceInv s.listHead s.registration s.storage (s.steady t) (s.calls t) t pc') :
    CallbackInv ({ s with listLock := listLock }.goto t pc') where
  nodup := h.nodup
  lock := hlock
  free := h.free
  registered := h.registered
  busy _ hr := h.busy_keep hpins hr
  steady := h.steady
  place := (Function.forall_update_iff s.pc fun u pc =>
    PlaceInv s.listHead s.registration s.storage (s.steady u) (s.calls u) u pc).mpr
      ⟨hplace, fun u _ => h.place u⟩

theorem quiet_same (h : CallbackInv s) {listLock : RwLock τ}
    (hlock : listLock.Agrees fun u => (Function.update s.pc t pc' u).hold)
    (htells : pc'.tells = (s.pc t).tells) :
    CallbackInv ({ s with listLock := listLock }.goto t pc') :=
  h.quiet hlock (congrArg Prod.fst htells) ((h.place t).same htells)

theorem passes (h : CallbackInv s) (hhold : pc'.hold = (s.pc t).hold)
    (htells : pc'.tells = (s.pc t).tells) : CallbackInv (s.goto t pc') :=
  h.quiet_same (h.lock_keep hhold) htells

end CallbackInv

namespace CallbackInv

variable [DecidableEq τ] {s : CallbackState τ κ} {t u : τ} {r : κ} {pc' : CallbackPc κ}

theorem setRegistration (h : CallbackInv s) (content : CallbackRegistration)
    (hr : r ∉ s.listHead) (hstill : ∀ u, (s.pc u).still ≠ some r) :
    CallbackInv (s.setRegistration r content) where
  nodup := h.nodup
  lock := h.lock
  free := h.free
  registered := h.registered
  busy x hx := by
    have hne : x ≠ r := fun heq => hr (heq ▸ hx)
    simpa [CallbackState.setRegistration, hne] using h.busy x hx
  steady u x hx := by
    have hmem := h.steady u x hx
    have hne : x ≠ r := fun heq => hr (heq ▸ hmem.1)
    simpa [CallbackState.setRegistration, hne] using hmem
  place u := (h.place u).setRegistration content (hstill u)

theorem storeUnregistering (h : CallbackInv s) (r : κ) :
    CallbackInv ((s.setRegistration r { s.registration r with unregistering := true }).unsettle
      r) where
  nodup := h.nodup
  lock := h.lock
  free := h.free
  registered := h.registered
  busy x hx := by
    by_cases hne : x = r
    · subst hne
      simpa [CallbackState.setRegistration, CallbackState.unsettle] using h.busy x hx
    · simpa [CallbackState.setRegistration, CallbackState.unsettle, hne] using h.busy x hx
  steady u x hx := by
    by_cases hne : x = r
    · subst hne
      simp [CallbackState.unsettle] at hx
    · simp only [CallbackState.unsettle, Function.update_of_ne hne] at hx
      simpa [CallbackState.setRegistration, CallbackState.unsettle, hne] using h.steady u x hx
  place u := by
    have hplace := (h.place u).unsettle r
    refine { hplace with still := fun x hx => ?_ }
    by_cases hne : x = r
    · subst hne
      simpa [CallbackState.setRegistration, CallbackState.unsettle] using hplace.still x hx
    · simpa [CallbackState.setRegistration, CallbackState.unsettle, hne] using hplace.still x hx

theorem take (h : CallbackInv s) (hidle : s.pc t = .idle) (hnone : ∀ u, (s.pc u).owner ≠ some r)
    (howner : pc'.owner = some r) (hhold : pc'.hold = .nothing) (hpins : pc'.pins = none)
    (hstill : pc'.still = none) (hwalk : pc'.walk = none)
    (hlinked : r ∈ s.listHead ↔ pc'.unlinked = false) :
    CallbackInv ((s.setStorage r (.taken t)).goto t pc') where
  nodup := h.nodup
  lock := h.lock_keep (hhold.trans (hidle ▸ rfl))
  free x hx := by
    by_cases hne : x = r
    · subst hne
      simp [CallbackState.goto, CallbackState.setStorage] at hx
    · exact h.free x (by simpa [CallbackState.goto, CallbackState.setStorage, hne] using hx)
  registered x hx := by
    by_cases hne : x = r
    · subst hne
      simp [CallbackState.goto, CallbackState.setStorage] at hx
    · exact h.registered x (by simpa [CallbackState.goto, CallbackState.setStorage, hne] using hx)
  busy x hx := h.busy_keep (hpins.trans (hidle ▸ rfl)) hx
  steady := h.steady
  place := by
    refine (Function.forall_update_iff s.pc fun u pc => PlaceInv s.listHead s.registration
      (Function.update s.storage r (.taken t)) (s.steady u) (s.calls u) u pc).mpr
        ⟨.own howner (by simp) hlinked hstill hwalk, fun u _ => (h.place u).setStorage _ (hnone u)⟩

end CallbackInv

theorem PlaceInv.idle {listHead : List κ} {registration : κ → CallbackRegistration}
    {storage : κ → StorageUse τ} {steady : κ → Bool} {calls : κ → Nat} {t : τ} :
    PlaceInv listHead registration storage steady calls t .idle where
  taken := nofun
  linked := nofun
  still := nofun
  cursor := nofun
  called := nofun

namespace CallbackInv

variable [DecidableEq τ] {s : CallbackState τ κ} {t u : τ} {r : κ} {pc' : CallbackPc κ}

theorem giveBack (h : CallbackInv s) (howner : (s.pc t).owner = some r)
    (hhold : (s.pc t).hold = .nothing) (hpins : (s.pc t).pins = none) (use : StorageUse τ)
    (hfree : use = .free → r ∉ s.listHead) (hregistered : use = .registered → r ∈ s.listHead) :
    CallbackInv ((s.setStorage r use).goto t .idle) where
  nodup := h.nodup
  lock := h.lock_keep hhold.symm
  free x hx := by
    by_cases hne : x = r
    · subst hne
      exact hfree (by simpa [CallbackState.goto, CallbackState.setStorage] using hx)
    · exact h.free x (by simpa [CallbackState.goto, CallbackState.setStorage, hne] using hx)
  registered x hx := by
    by_cases hne : x = r
    · subst hne
      exact hregistered (by simpa [CallbackState.goto, CallbackState.setStorage] using hx)
    · exact h.registered x (by simpa [CallbackState.goto, CallbackState.setStorage, hne] using hx)
  busy x hx := h.busy_keep hpins.symm hx
  steady := h.steady
  place := (Function.forall_update_iff s.pc fun u pc => PlaceInv s.listHead s.registration
    (Function.update s.storage r use) (s.steady u) (s.calls u) u pc).mpr
      ⟨.idle, fun u hu => (h.place u).setStorage _ (h.other_owner howner hu)⟩

theorem beginInvoke (h : CallbackInv s) (hidle : s.pc t = .idle) :
    CallbackInv (s.begin t .phInvokeCallback) where
  nodup := h.nodup
  lock := h.lock_keep (hidle ▸ rfl)
  free := h.free
  registered := h.registered
  busy x hx := h.busy_keep (hidle ▸ rfl) hx
  steady u x hx := by
    by_cases hu : u = t
    · subst hu
      simpa [CallbackState.begin, CallbackState.goto] using hx
    · exact h.steady u x (by simpa [CallbackState.begin, CallbackState.goto, hu] using hx)
  place u := by
    by_cases hu : u = t
    · subst hu
      refine ⟨?_, ?_, ?_, ?_, fun w hw x hx => ?_⟩
      · simp [CallbackState.begin, CallbackState.goto, CallbackPc.owner]
      · simp [CallbackState.begin, CallbackState.goto, CallbackPc.owner]
      · simp [CallbackState.begin, CallbackState.goto, CallbackPc.still]
      · simp [CallbackState.begin, CallbackState.goto, CallbackPc.cursor, CallbackPc.walk,
          Walk.cursor]
      · simp only [CallbackState.begin, CallbackState.goto, Function.update_self, CallbackPc.walk,
          Option.some.injEq] at hw
        subst hw
        simp [CallbackState.begin, CallbackState.goto, Walk.visited]
    · simpa [CallbackState.begin, CallbackState.goto, hu] using h.place u

end CallbackInv

namespace CallbackInv

variable [DecidableEq τ] {s : CallbackState τ κ} {t u : τ} {r : κ}

theorem insertTailList (h : CallbackInv s) (hpc : s.pc t = .insertTailList r) :
    CallbackInv ({ s with listHead := s.listHead ++ [r] }.goto t (.registerRelease r)) := by
  have howner : (s.pc t).owner = some r := by rw [hpc, CallbackPc.owner]
  have htaken := (h.place t).taken r howner
  have hnew : r ∉ s.listHead := by
    rw [(h.place t).linked r howner, hpc]
    exact Bool.noConfusion
  have hzero : (s.registration r).busy = 0 := (h.place t).still r (hpc ▸ rfl)
  constructor
  case nodup =>
    show (s.listHead ++ [r]).Nodup
    rw [List.nodup_append_comm]
    exact List.nodup_cons.mpr ⟨hnew, h.nodup⟩
  case lock => exact h.lock_keep (hpc ▸ rfl)
  case free =>
    intro x hx hmem
    rcases List.mem_append.mp hmem with hold | hlast
    · exact h.free x hx hold
    · rw [List.mem_singleton.mp hlast] at hx
      cases htaken.symm.trans hx
  case registered => exact fun x hx => List.mem_append_left _ (h.registered x hx)
  case busy =>
    intro x hx
    rcases List.mem_append.mp hx with hold | hlast
    · exact h.busy_keep (hpc ▸ rfl) hold
    · rw [List.mem_singleton.mp hlast]
      refine ⟨0, hzero, .none fun v hpins => ?_⟩
      rw [CallbackState.goto, CallbackPc.pins_goto (hpc ▸ rfl)] at hpins
      exact hnew ((h.place v).cursor r (CallbackPc.cursor_of_pins hpins))
  case steady =>
    intro v x hx
    exact ⟨List.mem_append_left _ (h.steady v x hx).1, (h.steady v x hx).2⟩
  case place =>
    refine (Function.forall_update_iff s.pc fun v pc => PlaceInv (s.listHead ++ [r]) s.registration
      s.storage (s.steady v) (s.calls v) v pc).mpr ⟨?_, fun v hv => ?_⟩
    · exact .own rfl htaken (by simp [CallbackPc.unlinked]) rfl rfl
    · exact (h.place v).insert (fun x hx => (h.steady v x hx).1) (h.other_owner howner hv)

theorem removeEntryList (h : CallbackInv s) (hpc : s.pc t = .removeEntryList r) :
    CallbackInv (({ s with listHead := s.listHead.erase r }.unsettle r).goto t
      (.unregisterRelease r)) := by
  have howner : (s.pc t).owner = some r := by rw [hpc, CallbackPc.owner]
  have htaken := (h.place t).taken r howner
  have hmem : r ∈ s.listHead := by
    rw [(h.place t).linked r howner, hpc]
    rfl
  have hzero : (s.registration r).busy = 0 := (h.place t).still r (hpc ▸ rfl)
  have hhold : (s.pc t).hold = .exclusive := by rw [hpc, CallbackPc.hold]
  have hgone : r ∉ s.listHead.erase r := h.nodup.not_mem_erase
  constructor
  case nodup => exact h.nodup.erase r
  case lock => exact h.lock_keep (hpc ▸ rfl)
  case free => exact fun x hx hin => h.free x hx (List.mem_of_mem_erase hin)
  case registered =>
    intro x hx
    have hne : x ≠ r := by
      intro heq
      rw [heq] at hx
      cases htaken.symm.trans hx
    exact (List.mem_erase_of_ne hne).mpr (h.registered x hx)
  case busy =>
    intro x hx
    exact h.busy_keep (hpc ▸ rfl) (List.mem_of_mem_erase hx)
  case steady =>
    intro v x hx
    by_cases hne : x = r
    · subst hne
      simp [CallbackState.goto, CallbackState.unsettle] at hx
    · simp only [CallbackState.goto, CallbackState.unsettle, Function.update_of_ne hne] at hx
      exact ⟨(List.mem_erase_of_ne hne).mpr (h.steady v x hx).1, (h.steady v x hx).2⟩
  case place =>
    refine (Function.forall_update_iff s.pc fun v pc => PlaceInv (s.listHead.erase r)
      s.registration s.storage (Function.update (s.steady v) r false) (s.calls v) v pc).mpr
        ⟨?_, fun v hv => ?_⟩
    · exact .own rfl htaken (by simp [CallbackPc.unlinked, hgone]) rfl rfl
    · exact (h.place v).remove (h.other_owner howner hv) (h.remove_cursor hhold hmem hzero hv)

theorem setBusy (h : CallbackInv s) {pc' : CallbackPc κ} {busy : Int}
    (hshared : (s.pc t).hold = .shared) (hhold : pc'.hold = .shared)
    (howner : pc'.owner = none) (hwalk : pc'.walk = (s.pc t).walk) (hstill : pc'.still = none)
    (hcursor : (s.pc t).cursor = some r)
    (hother : ∀ x, x ≠ r → (pc'.pins = some x ↔ (s.pc t).pins = some x))
    (hbusy : ∃ n : Nat, busy = n ∧
      Census.Tally (fun u => (Function.update s.pc t pc' u).pins = some r) n) :
    CallbackInv ((s.setRegistration r { s.registration r with busy := busy }).goto t pc') := by
  have hmem := (h.place t).cursor r hcursor
  constructor
  case nodup => exact h.nodup
  case lock => exact h.lock_keep (hhold.trans hshared.symm)
  case free => exact h.free
  case registered => exact h.registered
  case busy =>
    intro x hx
    by_cases hne : x = r
    · subst hne
      simpa [CallbackState.goto, CallbackState.setRegistration] using hbusy
    · obtain ⟨n, hn, htally⟩ := h.busy x hx
      refine ⟨n, by simpa [CallbackState.goto, CallbackState.setRegistration, hne] using hn,
        htally.congr fun v => ?_⟩
      by_cases hv : v = t
      · subst hv
        simpa [CallbackState.goto] using hother x hne
      · simp [CallbackState.goto, CallbackState.setRegistration, hv]
  case steady =>
    intro v x hx
    refine ⟨(h.steady v x hx).1, ?_⟩
    by_cases hne : x = r
    · subst hne
      simpa [CallbackState.goto, CallbackState.setRegistration] using (h.steady v x hx).2
    · simpa [CallbackState.goto, CallbackState.setRegistration, hne] using (h.steady v x hx).2
  case place =>
    refine (Function.forall_update_iff s.pc fun v pc => PlaceInv s.listHead
      (Function.update s.registration r { s.registration r with busy := busy }) s.storage
        (s.steady v) (s.calls v) v pc).mpr ⟨?_, fun v hv => ?_⟩
    · constructor
      case taken => simp [howner]
      case linked => simp [howner]
      case still => simp [hstill]
      case cursor =>
        intro x hx
        exact (h.place t).cursor x (by rw [CallbackPc.cursor, ← hwalk]; exact hx)
      case called =>
        intro w hw
        exact (h.place t).called w (hwalk ▸ hw)
    · exact (h.place v).setRegistration _ (h.linked_still hmem hshared v)

theorem incrementBusy (h : CallbackInv s) (hpc : s.pc t = .incrementBusy r) :
    CallbackInv ((s.setRegistration r
      { s.registration r with busy := (s.registration r).busy + 1 }).goto t (.callRelease r)) := by
  have hcursor : (s.pc t).cursor = some r := by
    rw [hpc]
    rfl
  obtain ⟨n, hn, htally⟩ := h.busy r ((h.place t).cursor r hcursor)
  refine h.setBusy (hpc ▸ rfl) rfl rfl (hpc ▸ rfl) rfl hcursor
    (fun x hx => ?_) ⟨n + 1, by rw [hn, Nat.cast_succ], ?_⟩
  · rw [hpc]
    simp [CallbackPc.pins, hx.symm]
  · refine htally.insert (i := t) ?_ ?_ fun v hv => ?_
    · simp [hpc, CallbackPc.pins]
    · simp [CallbackPc.pins]
    · rw [Function.update_of_ne hv]

theorem decrementBusy (h : CallbackInv s) (hpc : s.pc t = .decrementBusy r) :
    CallbackInv ((s.setRegistration r
      { s.registration r with busy := (s.registration r).busy - 1 }).goto t
        (.pulse r ((s.registration r).busy - 1))) := by
  have hcursor : (s.pc t).cursor = some r := by
    rw [hpc]
    rfl
  obtain ⟨n, hn, htally⟩ := h.busy r ((h.place t).cursor r hcursor)
  obtain ⟨hpos, hless⟩ := htally.erase (i := t)
    (q := fun u => (Function.update s.pc t (.pulse r ((s.registration r).busy - 1)) u).pins = some r)
    (hpc ▸ rfl) (by simp [CallbackPc.pins])
    fun v hv => by rw [Function.update_of_ne hv]
  refine h.setBusy (hpc ▸ rfl) rfl rfl (hpc ▸ rfl) rfl hcursor
    (fun x hx => ?_) ⟨n - 1, by omega, hless⟩
  rw [hpc]
  simp [CallbackPc.pins, hx.symm]

theorem call (h : CallbackInv s) (hpc : s.pc t = .call r) :
    CallbackInv ({ s with
        calls := Function.update s.calls t (Function.update (s.calls t) r (s.calls t r + 1)) }.goto t
          (.running r)) := by
  have hplace := h.place t
  constructor
  case nodup => exact h.nodup
  case lock => exact h.lock_keep (hpc ▸ rfl)
  case free => exact h.free
  case registered => exact h.registered
  case busy => exact fun x hx => h.busy_keep (hpc ▸ rfl) hx
  case steady => exact h.steady
  case place =>
    intro v
    by_cases hv : v = t
    · subst hv
      simp only [CallbackState.goto, Function.update_self]
      refine ⟨nofun, nofun, nofun, fun x hx => hplace.cursor x (by rw [hpc]; exact hx),
        fun w hw x hx => ?_⟩
      cases hw
      have hcalled := hplace.called (.before r) (hpc ▸ rfl) x hx
      have hnot := notMem_before s.listHead r
      by_cases hne : x = r
      · subst hne
        simpa [Walk.visited, hnot] using hcalled
      · have hsame : x ∈ (Walk.past r).visited s.listHead ↔ x ∈ (Walk.before r).visited s.listHead := by
          simp [Walk.visited, hne]
        rw [Function.update_of_ne hne, hcalled]
        exact if_congr hsame.symm rfl rfl
    · simpa [CallbackState.goto, hv] using h.place v

end CallbackInv

namespace CallbackInv

variable [DecidableEq τ] {s s' : CallbackState τ κ} {t : τ} {r : κ}

omit [DecidableEq κ] in
theorem readFlink_walk (listEntry : Option κ) :
    ∃ w, CallbackPc.walk (.readFlink listEntry) = some w := by
  cases listEntry with
  | none => exact ⟨_, rfl⟩
  | some c => exact ⟨_, rfl⟩

theorem readFlink (h : CallbackInv s) {listEntry : Option κ} (hpc : s.pc t = .readFlink listEntry) :
    CallbackInv (s.goto t
      ((listFlink s.listHead listEntry).elim .invokeRelease .testUnregistering)) := by
  have hplace := h.place t
  rw [hpc] at hplace
  cases hnext : listFlink s.listHead listEntry with
  | none =>
      have hall : ∀ w, CallbackPc.walk (.readFlink listEntry) = some w →
          w.visited s.listHead = s.listHead := by
        intro w hw
        cases listEntry with
        | none =>
            cases hw
            exact (List.head?_eq_none_iff.mp hnext).symm
        | some c =>
            cases hw
            exact (all_before (hplace.cursor c rfl) hnext).symm
      refine h.quiet (h.lock_keep (hpc ▸ rfl)) (hpc ▸ rfl)
        ⟨fun _ h => (by cases h), fun _ h => (by cases h), fun _ h => (by cases h),
          fun _ h => (by cases h), ?_⟩
      intro w hw x hx
      cases hw
      obtain ⟨w, hw⟩ := readFlink_walk listEntry
      have hcalled := hplace.called w hw x hx
      rw [hall w hw] at hcalled
      exact hcalled
  | some d =>
      have hmem : d ∈ s.listHead ∧ ∀ w, CallbackPc.walk (.readFlink listEntry) = some w →
          w.visited s.listHead = before s.listHead d := by
        cases listEntry with
        | none =>
            obtain ⟨l, hl⟩ := List.head?_eq_some_iff.mp hnext
            rw [hl]
            refine ⟨List.mem_cons_self, fun w hw => ?_⟩
            cases hw
            simp [before, Walk.visited]
        | some c =>
            obtain ⟨hd, hbefore⟩ := before_next h.nodup (hplace.cursor c rfl) hnext
            refine ⟨hd, fun w hw => ?_⟩
            cases hw
            exact hbefore.symm
      refine h.quiet (h.lock_keep (hpc ▸ rfl)) (hpc ▸ rfl)
        ⟨fun _ h => (by cases h), fun _ h => (by cases h), fun _ h => (by cases h), ?_, ?_⟩
      · intro x hx
        cases hx
        exact hmem.1
      · intro w hw x hx
        cases hw
        obtain ⟨w, hw⟩ := readFlink_walk listEntry
        have hcalled := hplace.called w hw x hx
        rw [hmem.2 w hw] at hcalled
        exact hcalled

theorem testUnregistering (h : CallbackInv s) (hpc : s.pc t = .testUnregistering r) :
    CallbackInv (s.goto t
      (if (s.registration r).unregistering then .readFlink (some r) else .incrementBusy r)) := by
  split
  · next hunregistering =>
      have hplace := h.place t
      rw [hpc] at hplace
      refine h.quiet (h.lock_keep (hpc ▸ rfl)) (hpc ▸ rfl)
        ⟨nofun, nofun, nofun, hplace.cursor, ?_⟩
      intro w hw x hx
      cases hw
      have hne : x ≠ r := by
        intro heq
        subst heq
        have hsettled := (h.steady t x hx).2
        rw [hunregistering] at hsettled
        cases hsettled
      rw [hplace.called (.before r) rfl x hx]
      refine if_congr ?_ rfl rfl
      simp [Walk.visited, hne]
  · exact h.passes (hpc ▸ rfl) (hpc ▸ rfl)

theorem testBusy (h : CallbackInv s) (hpc : s.pc t = .testBusy r) :
    CallbackInv (s.goto t
      (if (s.registration r).busy ≠ 0 then .waitRelease r else .removeEntryList r)) := by
  split
  · exact h.passes (hpc ▸ rfl) (hpc ▸ rfl)
  · next hzero =>
      have hplace := h.place t
      rw [hpc] at hplace
      refine h.quiet (h.lock_keep (hpc ▸ rfl)) (hpc ▸ rfl)
        ⟨hplace.taken, hplace.linked, ?_, nofun, nofun⟩
      intro x hx
      cases hx
      exact not_not.mp hzero

theorem withLock (h : CallbackInv s) {lock : Option (RwLock τ)} {pc' : CallbackPc κ}
    (hlock : ∀ listLock, lock = some listLock →
      listLock.Agrees (Function.update (fun u => (s.pc u).hold) t pc'.hold))
    (htells : pc'.tells = (s.pc t).tells) (hs' : s.withLock lock t pc' = some s') :
    CallbackInv s' := by
  obtain ⟨listLock, hsome, rfl⟩ := Option.map_eq_some_iff.mp hs'
  exact h.quiet_same (CallbackPc.hold_goto (hlock listLock hsome)) htells

theorem acquiresExclusive (h : CallbackInv s) {pc' : CallbackPc κ} (hhold : pc'.hold = .exclusive) :
    ∀ listLock, s.listLock.acquireExclusive t = some listLock →
      listLock.Agrees (Function.update (fun u => (s.pc u).hold) t pc'.hold) := by
  intro listLock hlock
  rw [hhold]
  exact h.lock.acquireExclusive hlock

theorem acquiresShared (h : CallbackInv s) {pc' : CallbackPc κ} (hhold : pc'.hold = .shared) :
    ∀ listLock, s.listLock.acquireShared t = some listLock →
      listLock.Agrees (Function.update (fun u => (s.pc u).hold) t pc'.hold) := by
  intro listLock hlock
  rw [hhold]
  exact h.lock.acquireShared hlock

theorem releasesExclusive (h : CallbackInv s) {pc' : CallbackPc κ} (hhold : pc'.hold = .nothing)
    (ht : (s.pc t).hold = .exclusive) : ∀ listLock, some s.listLock.releaseExclusive = some listLock →
      listLock.Agrees (Function.update (fun u => (s.pc u).hold) t pc'.hold) := by
  intro listLock hlock
  cases hlock
  rw [hhold]
  exact h.lock.releaseExclusive ht

theorem releasesShared (h : CallbackInv s) {pc' : CallbackPc κ} (hhold : pc'.hold = .nothing)
    (ht : (s.pc t).hold = .shared) : ∀ listLock, some (s.listLock.releaseShared t) = some listLock →
      listLock.Agrees (Function.update (fun u => (s.pc u).hold) t pc'.hold) := by
  intro listLock hlock
  cases hlock
  rw [hhold]
  exact h.lock.releaseShared ht

theorem initRegistration (h : CallbackInv s) (hpc : s.pc t = .initRegistration r) :
    CallbackInv ((s.setRegistration r ⟨0, false⟩).goto t (.registerAcquire r)) := by
  have hplace := h.place t
  rw [hpc] at hplace
  have hnew : r ∉ s.listHead := by
    rw [hplace.linked r rfl]
    exact Bool.noConfusion
  have hstill : ∀ u, (s.pc u).still ≠ some r := by
    intro u hu
    by_cases hne : u = t
    · rw [hne, hpc] at hu
      cases hu
    · exact h.other_owner (hpc ▸ rfl) hne (CallbackPc.still_owner hu).1
  refine (h.setRegistration ⟨0, false⟩ hnew hstill).quiet (h.lock_keep (hpc ▸ rfl)) ?_
    ⟨hplace.taken, hplace.linked, ?_, nofun, nofun⟩
  · show _ = (s.pc t).pins
    rw [hpc]
    rfl
  · intro x hx
    cases hx
    simp [CallbackState.setRegistration]

end CallbackInv

namespace CallbackInv

variable [DecidableEq τ] {s s' : CallbackState τ κ} {t : τ} {r : κ}

theorem registered_return (h : CallbackInv s) (hpc : s.pc t = .registered r) :
    CallbackInv ((s.setStorage r .registered).goto t .idle) := by
  have hlinked := (h.place t).linked r (hpc ▸ rfl)
  rw [hpc] at hlinked
  exact h.giveBack (hpc ▸ rfl) (hpc ▸ rfl) (hpc ▸ rfl) .registered nofun fun _ => hlinked.mpr rfl

theorem unregistered_notMem (h : CallbackInv s) (hpc : s.pc t = .unregistered r) :
    r ∉ s.listHead := by
  have hlinked := (h.place t).linked r (hpc ▸ rfl)
  rw [hpc] at hlinked
  rw [hlinked]
  exact Bool.noConfusion

theorem unregistered_return (h : CallbackInv s) (hpc : s.pc t = .unregistered r) :
    CallbackInv ((s.setStorage r .free).goto t .idle) :=
  h.giveBack (hpc ▸ rfl) (hpc ▸ rfl) (hpc ▸ rfl) .free (fun _ => h.unregistered_notMem hpc) nofun

theorem invoked_return (h : CallbackInv s) (hpc : s.pc t = .invoked) :
    CallbackInv (s.goto t .idle) :=
  h.quiet (h.lock_keep (hpc ▸ rfl)) (hpc ▸ rfl) .idle

theorem advance (h : CallbackInv s) (hs' : s.advance t = some s') : CallbackInv s' := by
  rw [CallbackState.advance] at hs'
  split at hs'
  · cases hs'
  · next r hpc =>
      cases hs'
      exact h.initRegistration hpc
  · next r hpc => exact h.withLock (h.acquiresExclusive rfl) (hpc ▸ rfl) hs'
  · next r hpc =>
      cases hs'
      exact h.insertTailList hpc
  · next r hpc => exact h.withLock (h.releasesExclusive rfl (hpc ▸ rfl)) (hpc ▸ rfl) hs'
  · next r hpc =>
      cases hs'
      exact h.registered_return hpc
  · next r hpc =>
      cases hs'
      exact (h.storeUnregistering r).passes (congrArg CallbackPc.hold hpc).symm
        (congrArg CallbackPc.tells hpc).symm
  · next r hpc => exact h.withLock (h.acquiresExclusive rfl) (hpc ▸ rfl) hs'
  · next r hpc =>
      cases hs'
      exact h.testBusy hpc
  · next r hpc => exact h.withLock (h.releasesExclusive rfl (hpc ▸ rfl)) (hpc ▸ rfl) hs'
  · next r hpc =>
      cases hs'
      exact h.passes (hpc ▸ rfl) (hpc ▸ rfl)
  · next r hpc =>
      cases hs'
      exact h.removeEntryList hpc
  · next r hpc => exact h.withLock (h.releasesExclusive rfl (hpc ▸ rfl)) (hpc ▸ rfl) hs'
  · next r hpc =>
      cases hs'
      exact h.unregistered_return hpc
  · next hpc => exact h.withLock (h.acquiresShared rfl) (hpc ▸ rfl) hs'
  · next listEntry hpc =>
      cases hs'
      exact h.readFlink hpc
  · next r hpc =>
      cases hs'
      exact h.testUnregistering hpc
  · next r hpc =>
      cases hs'
      exact h.incrementBusy hpc
  · next r hpc => exact h.withLock (h.releasesShared rfl (hpc ▸ rfl)) (hpc ▸ rfl) hs'
  · next r hpc =>
      cases hs'
      exact h.call hpc
  · next r hpc =>
      cases hs'
      exact h.passes (hpc ▸ rfl) (hpc ▸ rfl)
  · next r hpc => exact h.withLock (h.acquiresShared rfl) (hpc ▸ rfl) hs'
  · next r hpc =>
      cases hs'
      exact h.decrementBusy hpc
  · next r busy hpc =>
      cases hs'
      exact h.passes (hpc ▸ rfl) (hpc ▸ rfl)
  · next hpc => exact h.withLock (h.releasesShared rfl (hpc ▸ rfl)) (hpc ▸ rfl) hs'
  · next hpc =>
      cases hs'
      exact h.invoked_return hpc

theorem begin (h : CallbackInv s) (hidle : s.pc t = .idle) {call : CallbackCall κ}
    (hadmits : s.Admits call) : CallbackInv (s.begin t call) := by
  cases call with
  | phRegisterCallbackEx r =>
      refine h.take hidle (h.free_owner hadmits) rfl rfl rfl rfl rfl ?_
      exact iff_of_false (h.free r hadmits) Bool.noConfusion
  | phUnregisterCallback r =>
      refine h.take hidle (h.registered_owner hadmits) rfl rfl rfl rfl rfl ?_
      exact iff_of_true (h.registered r hadmits) rfl
  | phInvokeCallback => exact h.beginInvoke hidle

theorem step (h : CallbackInv s) {may : CallbackCall κ → Prop} (hstep : CallbackStep may s s') :
    CallbackInv s' := by
  cases hstep with
  | begin t call hidle _ hadmits => exact h.begin hidle hadmits
  | advance t hs' => exact h.advance hs'
  | reuse r content hfree =>
      exact h.setRegistration content (h.free r hfree) fun u hu =>
        h.free_owner hfree u (CallbackPc.still_owner hu).1

theorem run (h : CallbackInv s) {may : CallbackCall κ → Prop}
    (hrun : Relation.ReflTransGen (CallbackStep may) s s') : CallbackInv s' := by
  induction hrun with
  | refl => exact h
  | tail _ hstep ih => exact ih.step hstep

theorem start (registration : κ → CallbackRegistration) :
    CallbackInv (phInitializeCallback registration : CallbackState τ κ) where
  nodup := List.nodup_nil
  lock t := hold_free t
  free _ _ := List.not_mem_nil
  registered := nofun
  busy := nofun
  steady := nofun
  place _ := .idle

/-- A registration is unregistered, or what was its storage is in nobody's use. -/
def Gone (s : CallbackState τ κ) (r : κ) : Prop :=
  s.storage r = .free ∨ ∃ t, s.pc t = .unregistered r

theorem Gone.notMem (h : CallbackInv s) (hgone : Gone s r) : r ∉ s.listHead := by
  rcases hgone with hfree | ⟨t, hpc⟩
  · exact h.free r hfree
  · exact h.unregistered_notMem hpc

end CallbackInv

namespace CallbackInv

variable [DecidableEq τ] {s s' : CallbackState τ κ} {t u : τ} {r : κ}

theorem storage_advance (hother : (s.pc t).owner ≠ some r) (hs' : s.advance t = some s') :
    s'.storage r = s.storage r := by
  rw [CallbackState.advance] at hs'
  split at hs' <;> try cases hs'
  all_goals try rfl
  all_goals try
    obtain ⟨listLock, -, rfl⟩ := Option.map_eq_some_iff.mp hs'
    rfl
  all_goals
    next x hpc =>
      have hne : r ≠ x := by
        intro heq
        rw [hpc, heq] at hother
        exact hother rfl
      exact Function.update_of_ne hne _ _

theorem pc_advance (hu : u ≠ t) (hs' : s.advance t = some s') : s'.pc u = s.pc u := by
  rw [CallbackState.advance] at hs'
  split at hs' <;> try cases hs'
  all_goals try exact Function.update_of_ne hu _ _
  all_goals
    obtain ⟨listLock, -, rfl⟩ := Option.map_eq_some_iff.mp hs'
    exact Function.update_of_ne hu _ _

theorem Gone.advance (h : CallbackInv s) (hgone : Gone s r) (hs' : s.advance t = some s') :
    Gone s' r := by
  rcases hgone with hfree | ⟨u, hpc⟩
  · exact .inl ((storage_advance (h.free_owner hfree t) hs').trans hfree)
  · by_cases hu : u = t
    · subst hu
      rw [CallbackState.advance, hpc] at hs'
      cases hs'
      exact .inl (Function.update_self _ _ _)
    · exact .inr ⟨u, (pc_advance hu hs').trans hpc⟩

theorem Gone.begin (hgone : Gone s r) (hidle : s.pc t = .idle)
    {call : CallbackCall κ} (hcall : call ≠ .phRegisterCallbackEx r) (hadmits : s.Admits call) :
    Gone (s.begin t call) r := by
  have hkeep : ∀ u, s.pc u = .unregistered r → (s.begin t call).pc u = .unregistered r := by
    intro u hu
    have hne : u ≠ t := by
      intro heq
      rw [heq, hidle] at hu
      cases hu
    cases call <;> exact (Function.update_of_ne hne _ _).trans hu
  rcases hgone with hfree | ⟨u, hpc⟩
  · refine .inl ?_
    cases call with
    | phRegisterCallbackEx x =>
        have hne : r ≠ x := fun heq => hcall (by rw [heq])
        exact (Function.update_of_ne hne _ _).trans hfree
    | phUnregisterCallback x =>
        have hne : r ≠ x := by
          intro heq
          rw [CallbackState.Admits, ← heq, hfree] at hadmits
          cases hadmits
        exact (Function.update_of_ne hne _ _).trans hfree
    | phInvokeCallback => exact hfree
  · exact .inr ⟨u, hkeep u hpc⟩

theorem Gone.run (h : CallbackInv s) (hgone : Gone s r)
    (hrun : Relation.ReflTransGen (CallbackStep (· ≠ .phRegisterCallbackEx r)) s s') :
    Gone s' r := by
  induction hrun with
  | refl => exact hgone
  | tail hbefore hstep ih =>
      have hmiddle := h.run hbefore
      cases hstep with
      | begin t call hidle hmay hadmits => exact ih.begin hidle hmay hadmits
      | advance t hs' => exact ih.advance hmiddle hs'
      | reuse x content hfree => exact ih

theorem Gone.not_called (h : CallbackInv s) (hgone : Gone s r) (u : τ) :
    s.pc u ≠ .call r ∧ s.pc u ≠ .running r := by
  have hnot : (s.pc u).cursor ≠ some r := fun hcursor =>
    hgone.notMem h ((h.place u).cursor r hcursor)
  constructor
  · intro hpc
    rw [hpc] at hnot
    exact hnot rfl
  · intro hpc
    rw [hpc] at hnot
    exact hnot rfl

end CallbackInv

/-- However the threads take turns: once `PhUnregisterCallback` has returned, nobody runs the
function or starts it until the storage is registered again; whoever reads `Flink` of a list
entry reads that of a registration in the list; and a call of `PhInvokeCallback` that returns
has called each function once whose registration stayed registered and not unregistering. -/
theorem phCallback_unregister_safe [DecidableEq τ] {registration : κ → CallbackRegistration}
    {s : CallbackState τ κ}
    (hrun : Relation.ReflTransGen (CallbackStep fun _ => True) (phInitializeCallback registration)
      s) :
    (∀ t r, s.pc t = .unregistered r → ∀ s',
      Relation.ReflTransGen (CallbackStep (· ≠ .phRegisterCallbackEx r)) s s' →
        ∀ u, s'.pc u ≠ .call r ∧ s'.pc u ≠ .running r) ∧
      (∀ t r, s.pc t = .readFlink (some r) → r ∈ s.listHead) ∧
      ∀ t r, s.pc t = .invoked → s.steady t r = true → s.calls t r = 1 := by
  have h := (CallbackInv.start registration).run hrun
  refine ⟨fun t r hpc s' hafter u => ?_, fun t r hpc => ?_, fun t r hpc hsteady => ?_⟩
  · have hgone : CallbackInv.Gone s r := .inr ⟨t, hpc⟩
    exact (hgone.run h hafter).not_called (h.run hafter) u
  · exact (h.place t).cursor r (hpc ▸ rfl)
  · have hcalled := (h.place t).called .finished (hpc ▸ rfl) r hsteady
    rw [hcalled]
    exact if_pos (h.steady t r hsteady).1

inductive CallbackTurn where
  | begin (t : Nat) (call : CallbackCall Nat)
  | advance (t : Nat)

def CallbackTurn.take (s : CallbackState Nat Nat) : CallbackTurn → CallbackState Nat Nat
  | .begin t call => if s.pc t = .idle ∧ s.Admits call then s.begin t call else s
  | .advance t => (s.advance t).getD s

theorem CallbackTurn.take_run (s : CallbackState Nat Nat) (turn : CallbackTurn) :
    Relation.ReflTransGen (CallbackStep fun _ => True) s (turn.take s) := by
  cases turn with
  | begin t call =>
      rw [CallbackTurn.take]
      split
      · next hok => exact .single (.begin t call hok.1 trivial hok.2)
      · exact .refl
  | advance t =>
      rw [CallbackTurn.take]
      cases hnext : s.advance t with
      | none => exact .refl
      | some s' => exact .single (.advance t hnext)

theorem CallbackTurn.takes_run (s : CallbackState Nat Nat) (turns : List CallbackTurn) :
    Relation.ReflTransGen (CallbackStep fun _ => True) s (turns.foldl CallbackTurn.take s) := by
  induction turns generalizing s with
  | nil => exact .refl
  | cons turn turns ih => exact (CallbackTurn.take_run s turn).trans (ih _)

/-- Thread 0 registers 5 and 7 and thread 1 calls both. While it runs 5, thread 2 unregisters 5
and waits until thread 1 is done with it. -/
def unregisterWaits : List CallbackTurn :=
  List.flatten [[.begin 0 (.phRegisterCallbackEx 5)], List.replicate 5 (.advance 0),
    [.begin 0 (.phRegisterCallbackEx 7)], List.replicate 5 (.advance 0),
    [.begin 1 .phInvokeCallback], List.replicate 6 (.advance 1),
    [.begin 2 (.phUnregisterCallback 5)], List.replicate 5 (.advance 2),
    List.replicate 15 (.advance 1), List.replicate 4 (.advance 2)]

theorem phCallback_unregister_waits :
    (∀ s', Relation.ReflTransGen (CallbackStep (· ≠ .phRegisterCallbackEx 5))
      (unregisterWaits.foldl CallbackTurn.take (phInitializeCallback fun _ => ⟨3, true⟩)) s' →
        ∀ u, s'.pc u ≠ .call 5 ∧ s'.pc u ≠ .running 5) ∧
      (unregisterWaits.foldl CallbackTurn.take
        (phInitializeCallback fun _ => ⟨3, true⟩)).calls 1 7 = 1 :=
  ⟨(phCallback_unregister_safe (CallbackTurn.takes_run _ _)).1 2 5 (by decide +kernel),
    (phCallback_unregister_safe (CallbackTurn.takes_run _ _)).2.2 1 7 (by decide +kernel)
      (by decide +kernel)⟩

end

end SystemInformer.PhLib
