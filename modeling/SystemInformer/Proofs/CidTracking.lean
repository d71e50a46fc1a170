import SystemInformer.Proofs.TrackHeap

/-!
# Tracking neither loses nor leaks a context

A thread context that is in a thread list or is an `InitialThread` is anchored: it is in
the CID table, or the thread that has just joined it is about to put it there, or the
thread that has just taken it out is about to unlink it. So once every id is untracked no
thread context has a reference but from callers. This holds also for a thread that joins
the list of a process that has been untracked since the thread found it: the thread's own
untracking unlinks it.

The lifetime of an id keeps the threads apart: nobody else assigns the entry of an id
that a thread tracks or untracks, and nobody else changes the object it creates.
-/

set_option linter.unusedSectionVars false

namespace SystemInformer.Driver

open Census

variable {τ κ : Type} [DecidableEq τ] [DecidableEq κ]

namespace TrackPc

/-- The call of `KphpTrackContext` that a thread is in. -/
def call : TrackPc κ → Option TrackCall
  | .lookupReference creating _ _ => creating.map Prod.fst
  | .lookupFound creating _ _ => creating.map Prod.fst
  | .trackReference call => some call
  | .trackFound call _ => some call
  | .trackCreate call => some call
  | .threadJoin call _ _ => some call
  | .trackAssign call _ => some call
  | _ => none

def untracks : TrackPc κ → Option (ContextType × Nat)
  | .untrackReference type id => some (type, id)
  | .untrackFound type id _ => some (type, id)
  | .untrackAssign type id _ => some (type, id)
  | .untrackUnlink type id _ => some (type, id)
  | _ => none

def creates : TrackPc κ → Option κ
  | .lookupReference creating _ _ => creating.map Prod.snd
  | .lookupFound creating _ _ => creating.map Prod.snd
  | .threadJoin _ object _ => some object
  | .trackAssign _ object => some object
  | _ => none

/-- The thread context that a thread is about to put into the table, or has taken out. -/
def anchor : TrackPc κ → Option κ
  | .trackAssign _ object => some object
  | .untrackUnlink .thread _ object => some object
  | _ => none

/-- A thread context without a process. -/
def Creating (h : TrackHeap κ) (owned : κ → Nat) (call : TrackCall) (o : κ) : Prop :=
  0 < owned o ∧ h.type o = .thread ∧ call.type = .thread ∧ h.id o = call.id ∧
    h.processContext o = none ∧ h.entryGot call.id = true

/-- What the place of a thread says of its objects. -/
def Holds (h : TrackHeap κ) (owned : κ → Nat) : TrackPc κ → Prop
  | .lookupReference creating type _ =>
      ∀ c, creating = some c → type = .process ∧ Creating h owned c.1 c.2
  | .lookupFound creating type object =>
      0 < owned object ∧
        ∀ c, creating = some c → type = .process ∧ Creating h owned c.1 c.2 ∧ object ≠ c.2
  | .trackCreate call => h.entryGot call.id = true
  | .threadJoin call o p =>
      0 < owned o ∧ h.type o = .thread ∧ call.type = .thread ∧ h.id o = call.id ∧
        h.processContext o = some p ∧ h.Apart o ∧ h.entryGot call.id = true
  | .trackAssign call o =>
      0 < owned o ∧ h.type o = call.type ∧ h.id o = call.id ∧ h.entryGot call.id = true
  | .trackFound _ _ => False
  | .untrackFound _ id o => 0 < owned o ∧ h.entry id = some o
  | .untrackAssign _ id object => h.entry id = object ∧ ∀ o, object = some o → 0 < owned o
  | .untrackUnlink type id o => 0 < owned o ∧ h.type o = type ∧ h.id o = id ∧ h.entry id = none
  | _ => True

end TrackPc

structure ThreadOk (s : TrackState τ κ) (u : τ) : Prop where
  tracks : ∀ call, (s.pc u).call = some call → s.life call.id = .tracking u
  untracks : ∀ x, (s.pc u).untracks = some x → s.life x.2 = .untracking x.1 u
  holds : (s.pc u).Holds s.heap (s.owned u)

theorem TrackPc.Holds.creates_id {h : TrackHeap κ} {owned : κ → Nat} {pc : TrackPc κ} {o : κ}
    (hholds : pc.Holds h owned) (hcreates : pc.creates = some o) :
    0 < owned o ∧ ∃ call, pc.call = some call ∧ h.id o = call.id := by
  cases pc with
  | lookupReference creating type id =>
      obtain ⟨c, rfl, rfl⟩ := Option.map_eq_some_iff.mp hcreates
      obtain ⟨-, howned, -, -, hid, -, -⟩ := hholds c rfl
      exact ⟨howned, c.1, rfl, hid⟩
  | lookupFound creating type object =>
      obtain ⟨c, rfl, rfl⟩ := Option.map_eq_some_iff.mp hcreates
      obtain ⟨-, ⟨howned, -, -, hid, -, -⟩, -⟩ := hholds.2 c rfl
      exact ⟨howned, c.1, rfl, hid⟩
  | threadJoin call object process =>
      obtain rfl := Option.some.inj hcreates
      exact ⟨hholds.1, call, rfl, hholds.2.2.2.1⟩
  | trackAssign call object =>
      obtain rfl := Option.some.inj hcreates
      exact ⟨hholds.1, call, rfl, hholds.2.2.1⟩
  | _ => cases hcreates

theorem creates_unique {s : TrackState τ κ} {t u : τ} (ht : ThreadOk s t) (hu : ThreadOk s u)
    {o : κ} (hto : (s.pc t).creates = some o) (huo : (s.pc u).creates = some o) : t = u := by
  obtain ⟨-, call, hcall, hid⟩ := ht.holds.creates_id hto
  obtain ⟨-, call', hcall', hid'⟩ := hu.holds.creates_id huo
  have hlife := ht.tracks call hcall
  rw [← hid, hid', hu.tracks call' hcall'] at hlife
  cases hlife
  rfl

/-- What a step of another thread leaves to a thread. -/
structure Undisturbed (s s' : TrackState τ κ) (u : τ) : Prop where
  owned : s'.owned u = s.owned u
  pc : s'.pc u = s.pc u
  tracking : ∀ id, s.life id = .tracking u → s'.life id = .tracking u
  untracking : ∀ id type, s.life id = .untracking type u →
    s'.life id = .untracking type u ∧ s'.heap.entry id = s.heap.entry id
  keeps : ∃ x, Keeps s.heap s'.heap x ∧ ∀ o, (s.pc u).creates = some o → x ≠ some o
  got : ∀ id, s.heap.entryGot id = true → s'.heap.entryGot id = true

theorem ThreadOk.undisturbed {s s' : TrackState τ κ} {u : τ} {hand : κ → Nat} (h : ThreadOk s u)
    (H : HeapInv s.heap hand) (hhand : ∀ o, s.owned u o ≤ hand o) (hu : Undisturbed s s' u) :
    ThreadOk s' u := by
  obtain ⟨x, hkeeps, hx⟩ := hu.keeps
  have hlive : ∀ o, 0 < s.owned u o → o ∈ s.heap.live := fun o hpos =>
    H.live_of_pos (H.pos_of_hand (Nat.lt_of_lt_of_le hpos (hhand o)))
  have hcreating : ∀ call o, x ≠ some o → TrackPc.Creating s.heap (s.owned u) call o →
      TrackPc.Creating s'.heap (s.owned u) call o := by
    intro call o hne ⟨hpos, htype, hcall, hid, hcontext, hgot⟩
    exact ⟨hpos, (hkeeps.type o (hlive o hpos)).trans htype, hcall,
      (hkeeps.id o (hlive o hpos)).trans hid,
      (hkeeps.context o (hlive o hpos) hne).trans hcontext, hu.got _ hgot⟩
  refine ⟨fun call hcall => ?_, fun y hy => ?_, ?_⟩
  · rw [hu.pc] at hcall
    exact hu.tracking _ (h.tracks call hcall)
  · rw [hu.pc] at hy
    exact (hu.untracking _ _ (h.untracks y hy)).1
  · rw [hu.pc, hu.owned]
    have hholds := h.holds
    have huntracks := h.untracks
    cases hpc : s.pc u with
    | lookupReference creating type id =>
        rw [hpc] at hholds hx
        rintro c rfl
        exact ⟨(hholds c rfl).1, hcreating c.1 c.2 (hx c.2 rfl) (hholds c rfl).2⟩
    | lookupFound creating type object =>
        rw [hpc] at hholds hx
        refine ⟨hholds.1, ?_⟩
        rintro c rfl
        obtain ⟨htype, hcreate, hne⟩ := hholds.2 c rfl
        exact ⟨htype, hcreating c.1 c.2 (hx c.2 rfl) hcreate, hne⟩
    | trackCreate call =>
        rw [hpc] at hholds
        exact hu.got _ hholds
    | threadJoin call o p =>
        rw [hpc] at hholds hx
        obtain ⟨hpos, htype, hcall, hid, hcontext, hapart, hgot⟩ := hholds
        have hne := hx o rfl
        exact ⟨hpos, (hkeeps.type o (hlive o hpos)).trans htype, hcall,
          (hkeeps.id o (hlive o hpos)).trans hid,
          (hkeeps.context o (hlive o hpos) hne).trans hcontext, hkeeps.apart o hne hapart,
          hu.got _ hgot⟩
    | trackAssign call o =>
        rw [hpc] at hholds
        obtain ⟨hpos, htype, hid, hgot⟩ := hholds
        exact ⟨hpos, (hkeeps.type o (hlive o hpos)).trans htype,
          (hkeeps.id o (hlive o hpos)).trans hid, hu.got _ hgot⟩
    | trackFound call o =>
        rw [hpc] at hholds
        exact hholds
    | untrackFound type id o =>
        rw [hpc] at hholds huntracks
        have hlife := hu.untracking id type (huntracks (type, id) rfl)
        exact ⟨hholds.1, hlife.2.trans hholds.2⟩
    | untrackAssign type id object =>
        rw [hpc] at hholds huntracks
        have hlife := hu.untracking id type (huntracks (type, id) rfl)
        exact ⟨hlife.2.trans hholds.1, hholds.2⟩
    | untrackUnlink type id o =>
        rw [hpc] at hholds huntracks
        obtain ⟨hpos, htype, hid, hentry⟩ := hholds
        have hlife := hu.untracking id type (huntracks (type, id) rfl)
        exact ⟨hpos, (hkeeps.type o (hlive o hpos)).trans htype,
          (hkeeps.id o (hlive o hpos)).trans hid, hlife.2.trans hentry⟩
    | _ => trivial

section

variable [Fintype τ]

def TrackState.hands (s : TrackState τ κ) (o : κ) : Nat := total (fun owned => owned o) s.owned

theorem owned_le_hands (s : TrackState τ κ) (t : τ) (o : κ) : s.owned t o ≤ s.hands o :=
  le_total (fun owned : κ → Nat => owned o) s.owned t

theorem hands_setOwned (s : TrackState τ κ) (t : τ) (o : κ) (n : Nat) (x : κ) :
    (s.setOwned t o n).hands x + s.owned t x =
      s.hands x + if x = o then n else s.owned t x := by
  have := total_update (fun owned : κ → Nat => owned x) s.owned t
    (Function.update (s.owned t) o n)
  rw [TrackState.hands, TrackState.hands]
  show total _ (Function.update s.owned t _) + _ = _
  rw [this]
  by_cases hx : x = o
  · subst hx
    rw [Function.update_self, if_pos rfl]
  · rw [Function.update_of_ne hx, if_neg hx]

theorem hands_take (s : TrackState τ κ) (t : τ) (o : κ) :
    (s.setOwned t o (s.owned t o + 1)).hands = s.hands + Pi.single o 1 := by
  funext x
  have := hands_setOwned s t o (s.owned t o + 1) x
  rw [Pi.add_apply]
  by_cases hx : x = o
  · subst hx
    rw [if_pos rfl] at this
    rw [Pi.single_eq_same]
    omega
  · rw [if_neg hx] at this
    rw [Pi.single_eq_of_ne hx]
    omega

theorem hands_drop (s : TrackState τ κ) (t : τ) (o : κ) (howned : 0 < s.owned t o) :
    (s.setOwned t o (s.owned t o - 1)).hands + Pi.single o 1 = s.hands := by
  funext x
  have := hands_setOwned s t o (s.owned t o - 1) x
  rw [Pi.add_apply]
  by_cases hx : x = o
  · subst hx
    rw [if_pos rfl] at this
    rw [Pi.single_eq_same]
    omega
  · rw [if_neg hx] at this
    rw [Pi.single_eq_of_ne hx]
    omega

structure TrackInv (s : TrackState τ κ) : Prop where
  heap : HeapInv s.heap s.hands
  threads : ∀ u, ThreadOk s u
  entries : ∀ id o, s.heap.entry id = some o →
    s.life id = .tracked (s.heap.type o) ∨ ∃ u, s.life id = .untracking (s.heap.type o) u
  got : ∀ id o, s.heap.entry id = some o → s.heap.entryGot id = true
  anchored : ∀ o, s.heap.Apart o ∨ s.heap.entry (s.heap.id o) = some o ∨
    ∃ u, (s.pc u).anchor = some o

variable {t : τ}

theorem TrackInv.step {s s' : TrackState τ κ} {x : Option κ} (pc : TrackPc κ)
    (h : TrackInv s) (hpc : s'.pc = Function.update s.pc t pc)
    (howned : ∀ u, u ≠ t → s'.owned u = s.owned u)
    (hlife : ∀ u, u ≠ t → ∀ i, (s.life i = .tracking u ∨ ∃ type, s.life i = .untracking type u) →
      s'.life i = s.life i ∧ s'.heap.entry i = s.heap.entry i)
    (hkeeps : Keeps s.heap s'.heap x) (hx : ∀ o, x = some o → (s.pc t).creates = some o)
    (hheap : HeapInv s'.heap s'.hands)
    (htracks : ∀ call, pc.call = some call → s'.life call.id = .tracking t)
    (huntracks : ∀ y, pc.untracks = some y → s'.life y.2 = .untracking y.1 t)
    (hholds : pc.Holds s'.heap (s'.owned t))
    (hgot : ∀ i, s.heap.entryGot i = true → s'.heap.entryGot i = true)
    (hentries : ∀ i o, s'.heap.entry i = some o →
      (s.heap.entry i = some o ∧ s'.life i = s.life i) ∨
        (s'.heap.entryGot i = true ∧ (s'.life i = .tracked (s'.heap.type o) ∨
          ∃ u, s'.life i = .untracking (s'.heap.type o) u)))
    (hgained : ∀ o, x = some o → s'.heap.Apart o ∨ pc.anchor = some o)
    (hlost : ∀ i o, s.heap.entry i = some o →
      s'.heap.entry i = some o ∨ s'.heap.Apart o ∨ pc.anchor = some o)
    (hanchor : ∀ o, (s.pc t).anchor = some o → s'.heap.Apart o ∨
      s'.heap.entry (s'.heap.id o) = some o ∨ pc.anchor = some o) : TrackInv s' := by
  have hself : s'.pc t = pc := by rw [hpc, Function.update_self]
  have hother : ∀ u, u ≠ t → s'.pc u = s.pc u := fun u hu => by
    rw [hpc, Function.update_of_ne hu]
  have hlive : ∀ i o, s.heap.entry i = some o → o ∈ s.heap.live := fun i o hentry =>
    h.heap.live_of_pos (h.heap.pos_of_entry hentry)
  refine ⟨hheap, fun u => ?_, fun i o hentry => ?_, fun i o hentry => ?_, fun o => ?_⟩
  · by_cases hu : u = t
    · subst hu
      exact ⟨fun call hcall => htracks call (hself ▸ hcall), fun y hy => huntracks y (hself ▸ hy),
        hself ▸ hholds⟩
    · refine (h.threads u).undisturbed h.heap (owned_le_hands s u) ⟨howned u hu, hother u hu,
        fun i hi => ?_, fun i type hi => ?_, ⟨x, hkeeps, fun o huo hxo => ?_⟩, hgot⟩
      · rw [(hlife u hu i (.inl hi)).1]
        exact hi
      · obtain ⟨hsame, hentry⟩ := hlife u hu i (.inr ⟨type, hi⟩)
        exact ⟨hsame.trans hi, hentry⟩
      · exact hu (creates_unique (h.threads u) (h.threads t) huo (hx o hxo))
  · rcases hentries i o hentry with ⟨hold, hsame⟩ | ⟨-, hnew⟩
    · rw [hsame, hkeeps.type o (hlive i o hold)]
      exact h.entries i o hold
    · exact hnew
  · rcases hentries i o hentry with ⟨hold, -⟩ | ⟨hnew, -⟩
    · exact hgot i (h.got i o hold)
    · exact hnew
  · rcases h.anchored o with hapart | hentry | ⟨u, hu⟩
    · by_cases hxo : x = some o
      · rcases hgained o hxo with hgain | hgain
        · exact .inl hgain
        · exact .inr (.inr ⟨t, hself ▸ hgain⟩)
      · exact .inl (hkeeps.apart o hxo hapart)
    · rcases hlost _ o hentry with hkept | hapart | hgain
      · rw [← hkeeps.id o (hlive _ o hentry)] at hkept
        exact .inr (.inl hkept)
      · exact .inl hapart
      · exact .inr (.inr ⟨t, hself ▸ hgain⟩)
    · by_cases hut : u = t
      · subst hut
        rcases hanchor o hu with hgain | hgain | hgain
        · exact .inl hgain
        · exact .inr (.inl hgain)
        · exact .inr (.inr ⟨u, hself ▸ hgain⟩)
      · exact .inr (.inr ⟨u, by rw [hother u hut]; exact hu⟩)

theorem TrackInv.local {s s' : TrackState τ κ} (pc : TrackPc κ) (h : TrackInv s)
    (hpc : s'.pc = Function.update s.pc t pc) (howned : ∀ u, u ≠ t → s'.owned u = s.owned u)
    (hlife : s'.life = s.life) (hentry : s'.heap.entry = s.heap.entry)
    (hkeeps : Keeps s.heap s'.heap none) (hheap : HeapInv s'.heap s'.hands)
    (hcall : pc.call = (s.pc t).call ∨ pc.call = none)
    (huntracks : pc.untracks = (s.pc t).untracks ∨ pc.untracks = none)
    (hholds : pc.Holds s'.heap (s'.owned t))
    (hgot : ∀ i, s.heap.entryGot i = true → s'.heap.entryGot i = true)
    (hanchor : (s.pc t).anchor = none) : TrackInv s' := by
  refine h.step pc hpc howned (fun u hu i _ => ⟨by rw [hlife], by rw [hentry]⟩) hkeeps
    (fun o ho => (by cases ho)) hheap (fun call hc => ?_) (fun y hy => ?_) hholds hgot
    (fun i o hi => .inl ⟨hentry ▸ hi, by rw [hlife]⟩) (fun o ho => (by cases ho))
    (fun i o hi => .inl (hentry ▸ hi)) fun o ho => ?_
  · rw [hlife]
    rcases hcall with heq | heq
    · exact (h.threads t).tracks call (heq ▸ hc)
    · rw [heq] at hc
      cases hc
  · rw [hlife]
    rcases huntracks with heq | heq
    · exact (h.threads t).untracks y (heq ▸ hy)
    · rw [heq] at hy
      cases hy
  · rw [hanchor] at ho
    cases ho

variable {s : TrackState τ κ}

theorem TrackInv.entry_of_tracking {i : Nat} (h : TrackInv s)
    (hlife : s.life i = .tracking t) : s.heap.entry i = none := by
  refine Option.eq_none_iff_forall_ne_some.mpr fun o hentry => ?_
  rcases h.entries i o hentry with hother | ⟨u, hother⟩
  · exact absurd (hlife.symm.trans hother) (by simp)
  · exact absurd (hlife.symm.trans hother) (by simp)

/-! ## Looking up a context -/

theorem HeapInv.got {h : TrackHeap κ} {hand : κ → Nat} (H : HeapInv h hand) (i : Nat) :
    HeapInv { h with entryGot := Function.update h.entryGot i true } hand :=
  ⟨H.counts, H.dead, H.condemned, H.nodup, H.entry, H.context, H.lists, H.listed, H.listNodup,
    H.number, H.initial⟩

theorem gotEntry_mono (s : TrackState τ κ) (i : Nat) {j : Nat} (h : s.heap.entryGot j = true) :
    (s.gotEntry i).heap.entryGot j = true := by
  show Function.update s.heap.entryGot i true j = true
  by_cases hj : j = i
  · rw [hj, Function.update_self]
  · rw [Function.update_of_ne hj]
    exact h

theorem gotEntry_self (s : TrackState τ κ) (i : Nat) : (s.gotEntry i).heap.entryGot i = true :=
  Function.update_self ..

theorem keeps_got (h : TrackHeap κ) (i : Nat) (x : Option κ) :
    Keeps h { h with entryGot := Function.update h.entryGot i true } x :=
  keeps_of_eq h { h with entryGot := Function.update h.entryGot i true } rfl rfl rfl rfl rfl x

theorem keeps_reference (h : TrackHeap κ) (o : κ) (x : Option κ) :
    Keeps h (h.kphReferenceObject o) x :=
  keeps_of_eq h (h.kphReferenceObject o) rfl rfl rfl rfl rfl x

theorem TrackInv.lookedUp_none {s s₁ : TrackState τ κ} {creating : Option (TrackCall × κ)}
    (h : TrackInv s) (hcall : (s.pc t).call = creating.map Prod.fst)
    (huntracks : (s.pc t).untracks = none) (hanchor : (s.pc t).anchor = none)
    (hpc : s₁.pc = s.pc) (howned : ∀ u, u ≠ t → s₁.owned u = s.owned u) (hlife : s₁.life = s.life)
    (hentry : s₁.heap.entry = s.heap.entry) (hkeeps : Keeps s.heap s₁.heap none)
    (hheap : HeapInv s₁.heap s₁.hands)
    (hgot : ∀ i, s.heap.entryGot i = true → s₁.heap.entryGot i = true)
    (hcreating : ∀ c, creating = some c → TrackPc.Creating s₁.heap (s₁.owned t) c.1 c.2) :
    TrackInv (s₁.lookedUp t creating none) := by
  cases creating with
  | none =>
      refine h.local .idle ?_ howned hlife hentry hkeeps hheap (.inr rfl) (.inr rfl) trivial
        hgot hanchor
      rw [← hpc]
      rfl
  | some c =>
      obtain ⟨call, o⟩ := c
      obtain ⟨hpos, htype, hthread, hid, -, hgotten⟩ := hcreating (call, o) rfl
      refine h.local (.trackAssign call o) ?_ howned hlife hentry hkeeps hheap
        (.inl hcall.symm) (.inl huntracks.symm) ⟨hpos, htype.trans hthread.symm, hid, hgotten⟩ hgot
        hanchor
      rw [← hpc]
      rfl

variable {type : ContextType}

theorem TrackInv.lookupReference
    {creating : Option (TrackCall × κ)} {id : Nat} (h : TrackInv s)
    (hpc : s.pc t = .lookupReference creating type id) (found : Bool) (alloc : Option κ) :
    TrackInv (s.advance t found alloc) := by
  have hholds := (h.threads t).holds
  rw [hpc] at hholds
  have hcall : (s.pc t).call = creating.map Prod.fst := by rw [hpc]; rfl
  have huntracks : (s.pc t).untracks = none := by rw [hpc]; rfl
  have hanchor : (s.pc t).anchor = none := by rw [hpc]; rfl
  simp only [TrackState.advance, hpc]
  cases found with
  | false =>
      exact h.lookedUp_none hcall huntracks hanchor rfl (fun _ _ => rfl) rfl rfl (Keeps.refl _ _)
        h.heap (fun _ hi => hi) fun c hc => (hholds c hc).2
  | true =>
      have hcreating : ∀ c, creating = some c →
          TrackPc.Creating (s.gotEntry id).heap (s.owned t) c.1 c.2 := by
        intro c hc
        obtain ⟨-, hpos, htype, hthread, hid, hcontext, hgot⟩ := hholds c hc
        exact ⟨hpos, htype, hthread, hid, hcontext, gotEntry_mono s id hgot⟩
      cases hentry : s.heap.entry id with
      | none =>
          exact h.lookedUp_none hcall huntracks hanchor rfl (fun _ _ => rfl) rfl rfl
            (keeps_got s.heap id none) (h.heap.got id) (fun _ hi => gotEntry_mono s id hi) hcreating
      | some object =>
          have hpos := h.heap.pos_of_entry hentry
          refine h.local (.lookupFound creating type object) rfl
            (fun u hu => Function.update_of_ne hu ..) rfl rfl
            ((keeps_got s.heap id none).trans (keeps_reference _ object none) rfl) ?_
            (.inl hcall.symm) (.inl huntracks.symm) ⟨?_, fun c hc => ?_⟩
            (fun _ hi => gotEntry_mono s id hi) hanchor
          · have H := (h.heap.got id).reference hpos
            rw [← hands_take s t object] at H
            exact H
          · show 0 < Function.update s.owned t _ t object
            rw [Function.update_self, Function.update_self]
            omega
          · obtain ⟨hown, htype, hthread, hid, hcontext, hgot⟩ := hcreating c hc
            refine ⟨(hholds c hc).1, ⟨?_, htype, hthread, hid, hcontext, hgot⟩, ?_⟩
            · show 0 < Function.update s.owned t _ t c.2
              rw [Function.update_self]
              by_cases hsame : c.2 = object
              · rw [hsame, Function.update_self]
                omega
              · rw [Function.update_of_ne hsame]
                exact hown
            · -- The object that is created is not in the table yet.
              rintro rfl
              have hlife := (h.threads t).tracks c.1 (by rw [hcall, hc]; rfl)
              have hnone := h.entry_of_tracking hlife
              have hsame := (h.heap.entry id c.2 hentry).symm.trans hid
              rw [hsame] at hentry
              exact absurd (hnone.symm.trans hentry) (by simp)

variable {call : TrackCall}

theorem TrackPc.creating_drop {h : TrackHeap κ} {owned : κ → Nat}
    {o object : κ} (n : Nat) (hcreating : TrackPc.Creating h owned call o) (hne : object ≠ o) :
    TrackPc.Creating h (Function.update owned object n) call o := by
  refine ⟨?_, hcreating.2⟩
  rw [Function.update_of_ne hne.symm]
  exact hcreating.1

theorem TrackInv.lookupFound {creating : Option (TrackCall × κ)} {object : κ} (h : TrackInv s)
    (hpc : s.pc t = .lookupFound creating type object) (found : Bool) (alloc : Option κ) : TrackInv (s.advance t found alloc) := by
  have hholds := (h.threads t).holds
  rw [hpc] at hholds
  obtain ⟨hown, hcreating⟩ := hholds
  have hcall : (s.pc t).call = creating.map Prod.fst := by rw [hpc]; rfl
  have huntracks : (s.pc t).untracks = none := by rw [hpc]; rfl
  have hanchor : (s.pc t).anchor = none := by rw [hpc]; rfl
  have hhands := hands_drop s t object hown
  have hother : ∀ u, u ≠ t →
      Function.update s.owned t (Function.update (s.owned t) object (s.owned t object - 1)) u =
        s.owned u := fun u hu => Function.update_of_ne hu ..
  simp only [TrackState.advance, hpc]
  split
  · next htype =>
      cases creating with
      | none =>
          exact h.local .idle rfl (fun _ _ => rfl) rfl rfl (Keeps.refl _ _) h.heap (.inr rfl)
            (.inr rfl) trivial (fun _ hi => hi) hanchor
      | some c =>
          obtain ⟨call, o⟩ := c
          obtain ⟨rfl, ⟨hpos, hthread, hcthread, hid, hcontext, hgot⟩, hne⟩ := hcreating (call, o) rfl
          have hlive := h.heap.live_of_pos (h.heap.pos_of_hand
            (Nat.lt_of_lt_of_le hpos (owned_le_hands s t o)))
          have H : HeapInv s.heap
              ((s.setOwned t object (s.owned t object - 1)).hands + Pi.single object 1) := by
            rw [hhands]
            exact h.heap
          have H' := H.setProcess hlive hcontext hthread htype
          have hapart : (s.heap.setProcessContext o object).Apart o := by
            refine ⟨h.heap.not_listed_of_none hcontext, h.heap.not_initial_of_none hcontext⟩
          refine h.step (.threadJoin call o object) rfl hother (fun _ _ _ _ => ⟨rfl, rfl⟩)
            (keeps_setProcessContext s.heap o object) (fun y hy => ?_) H' (fun c hc => ?_)
            (fun y hy => (by cases hy)) ⟨?_, hthread, hcthread, hid, Function.update_self .., hapart,
              hgot⟩ (fun _ hi => hi) (fun i y hy => .inl ⟨hy, rfl⟩) (fun y hy => ?_)
            (fun i y hy => .inl hy) fun y hy => ?_
          · rw [hpc]
            exact hy
          · obtain rfl := Option.some.inj hc
            exact (h.threads t).tracks call (by rw [hpc]; rfl)
          · show 0 < Function.update s.owned t _ t o
            rw [Function.update_self, Function.update_of_ne hne.symm]
            exact hpos
          · obtain rfl := Option.some.inj hy
            exact .inl hapart
          · rw [hanchor] at hy
            cases hy
  · next htype =>
      have H : HeapInv (s.drop t object).heap (s.drop t object).hands := by
        refine HeapInv.dereference ?_
        show HeapInv s.heap ((s.setOwned t object (s.owned t object - 1)).hands + Pi.single object 1)
        rw [hhands]
        exact h.heap
      refine h.lookedUp_none hcall huntracks hanchor rfl hother rfl rfl
        (keeps_dereference s.heap object none) H (fun _ hi => hi) fun c hc => ?_
      obtain ⟨-, hcreate, hne⟩ := hcreating c hc
      have hdrop := TrackPc.creating_drop (s.owned t object - 1) hcreate hne
      show TrackPc.Creating s.heap (Function.update s.owned t _ t) c.1 c.2
      rw [Function.update_self]
      exact hdrop

/-! ## Tracking -/

theorem ne_of_life {t u : τ} {i id : Nat} (hu : u ≠ t)
    (hmine : s.life id = .tracking t ∨ ∃ type, s.life id = .untracking type t)
    (hi : s.life i = .tracking u ∨ ∃ type, s.life i = .untracking type u) : i ≠ id := by
  rintro rfl
  rcases hmine with hmine | ⟨type, hmine⟩
  · rcases hi with hi | ⟨type', hi⟩
    · cases hmine.symm.trans hi
      exact hu rfl
    · cases hmine.symm.trans hi
  · rcases hi with hi | ⟨type', hi⟩
    · cases hmine.symm.trans hi
    · cases hmine.symm.trans hi
      exact hu rfl

theorem TrackInv.finish {s s₁ : TrackState τ κ} {id : Nat} {life : CidLife τ}
    (h : TrackInv s) (hmine : s.life id = .tracking t ∨ ∃ type, s.life id = .untracking type t)
    (hpc : s₁.pc = s.pc) (howned : ∀ u, u ≠ t → s₁.owned u = s.owned u) (hlife : s₁.life = s.life)
    (hentry : s₁.heap.entry = s.heap.entry) (hempty : s.heap.entry id = none)
    (hkeeps : Keeps s.heap s₁.heap none) (hheap : HeapInv s₁.heap s₁.hands)
    (hgot : ∀ i, s.heap.entryGot i = true → s₁.heap.entryGot i = true)
    (hanchor : ∀ o, (s.pc t).anchor = some o → s₁.heap.Apart o) :
    TrackInv (s₁.finish t id life) := by
  have hlife' : ∀ i, i ≠ id → (s₁.finish t id life).life i = s.life i := by
    intro i hi
    rw [← hlife]
    exact Function.update_of_ne hi ..
  refine h.step .idle (by rw [← hpc]; rfl) howned (fun u hu i hi => ?_) hkeeps
    (fun o ho => (by cases ho)) hheap (fun c hc => (by cases hc)) (fun y hy => (by cases hy)) trivial
    hgot (fun i o hi => ?_) (fun o ho => (by cases ho)) (fun i o hi => .inl ?_)
    fun o ho => .inl (hanchor o ho)
  · exact ⟨hlife' i (ne_of_life hu hmine hi), congrFun hentry i⟩
  · have hold : s.heap.entry i = some o := by
      rw [← hentry]
      exact hi
    have hne : i ≠ id := by
      rintro rfl
      rw [hempty] at hold
      cases hold
    exact .inl ⟨hold, hlife' i hne⟩
  · show s₁.heap.entry i = some o
    rw [hentry]
    exact hi

theorem TrackInv.trackReference (h : TrackInv s)
    (hpc : s.pc t = .trackReference call) (found : Bool) (alloc : Option κ) :
    TrackInv (s.advance t found alloc) := by
  have hanchor : (s.pc t).anchor = none := by rw [hpc]; rfl
  have hcall : (s.pc t).call = some call := by rw [hpc]; rfl
  have hlife := (h.threads t).tracks call hcall
  have hentry := h.entry_of_tracking hlife
  simp only [TrackState.advance, hpc]
  cases found with
  | false =>
      refine h.finish (.inl hlife) rfl (fun _ _ => rfl) rfl rfl hentry (Keeps.refl _ _) h.heap
        (fun _ hi => hi) fun o ho => ?_
      rw [hanchor] at ho
      cases ho
  | true =>
      rw [hentry]
      exact h.local (.trackCreate call) rfl (fun _ _ => rfl) rfl rfl (keeps_got s.heap call.id none)
        (h.heap.got call.id) (.inl hcall.symm) (.inr rfl) (gotEntry_self s call.id)
        (fun _ hi => gotEntry_mono s call.id hi) hanchor

theorem TrackInv.trackCreate (h : TrackInv s)
    (hpc : s.pc t = .trackCreate call) (found : Bool) (alloc : Option κ)
    (halloc : ∀ object, alloc = some object → object ∉ s.heap.live) :
    TrackInv (s.advance t found alloc) := by
  have hanchor : (s.pc t).anchor = none := by rw [hpc]; rfl
  have hcall : (s.pc t).call = some call := by rw [hpc]; rfl
  have hlife := (h.threads t).tracks call hcall
  have hentry := h.entry_of_tracking hlife
  have hgot := (h.threads t).holds
  rw [hpc] at hgot
  have hgot : s.heap.entryGot call.id = true := hgot
  simp only [TrackState.advance, hpc]
  cases alloc with
  | none =>
      refine h.finish (.inl hlife) rfl (fun _ _ => rfl) rfl rfl hentry (Keeps.refl _ _) h.heap
        (fun _ hi => hi) fun o ho => ?_
      rw [hanchor] at ho
      cases ho
  | some object =>
      obtain ⟨type, id, pid⟩ := call
      have hdead := halloc object rfl
      have hown : 0 < Function.update s.owned t
          (Function.update (s.owned t) object (s.owned t object + 1)) t object := by
        rw [Function.update_self, Function.update_self]
        omega
      have H := h.heap.create hdead type id
      rw [← hands_take s t object] at H
      have hself : (s.heap.kphCreateObject object type id).type object = type :=
        Function.update_self ..
      have hid : (s.heap.kphCreateObject object type id).id object = id := Function.update_self ..
      have hcontext : (s.heap.kphCreateObject object type id).processContext object = none :=
        Function.update_self ..
      have hkeeps := keeps_create hdead type id
      cases type with
      | process =>
          exact h.local (.trackAssign ⟨.process, id, pid⟩ object) rfl
            (fun u hu => Function.update_of_ne hu ..) rfl rfl hkeeps H (.inl hcall.symm) (.inr rfl)
            ⟨hown, hself, hid, hgot⟩ (fun _ hi => hi) hanchor
      | thread =>
          refine h.local (.lookupReference (some (⟨.thread, id, pid⟩, object)) .process pid) rfl
            (fun u hu => Function.update_of_ne hu ..) rfl rfl hkeeps H (.inl hcall.symm) (.inr rfl)
            ?_ (fun _ hi => hi) hanchor
          intro c hc
          obtain rfl := Option.some.inj hc
          exact ⟨rfl, hown, hself, rfl, hid, hcontext, hgot⟩

theorem TrackInv.threadJoin {o p : κ}
    (h : TrackInv s) (hpc : s.pc t = .threadJoin call o p) (found : Bool) (alloc : Option κ) :
    TrackInv (s.advance t found alloc) := by
  have hcall : (s.pc t).call = some call := by rw [hpc]; rfl
  have hholds := (h.threads t).holds
  rw [hpc] at hholds
  obtain ⟨hpos, htype, hthread, hid, hcontext, hapart, hgot⟩ := hholds
  simp only [TrackState.advance, hpc]
  have hhand := Nat.lt_of_lt_of_le hpos (owned_le_hands s t o)
  have hlive := h.heap.live_of_pos (h.heap.pos_of_hand hhand)
  have hkeeps := keeps_join s.heap p o
  have hentry : (s.heap.joinProcess p o).entry = s.heap.entry := by
    unfold TrackHeap.joinProcess
    cases s.heap.initialThread p <;> rfl
  have hgotten : (s.heap.joinProcess p o).entryGot = s.heap.entryGot := by
    unfold TrackHeap.joinProcess
    cases s.heap.initialThread p <;> rfl
  refine h.step (.trackAssign call o) rfl (fun _ _ => rfl)
    (fun _ _ i _ => ⟨rfl, congrFun hentry i⟩) hkeeps (fun y hy => ?_)
    (h.heap.join hhand hcontext hapart.list) (fun c hc => ?_) (fun y hy => (by cases hy))
    ⟨hpos, (hkeeps.type o hlive).trans (htype.trans hthread.symm), (hkeeps.id o hlive).trans hid, ?_⟩
    (fun i hi => ?_) (fun i y hy => .inl ⟨?_, rfl⟩) (fun y hy => .inr hy) (fun i y hy => .inl ?_)
    fun y hy => ?_
  · rw [hpc]
    exact hy
  · obtain rfl := Option.some.inj hc
    exact (h.threads t).tracks call hcall
  · exact (congrFun hgotten call.id).trans hgot
  · exact (congrFun hgotten i).trans hi
  · exact (congrFun hentry i).symm.trans hy
  · exact (congrFun hentry i).trans hy
  · rw [hpc] at hy
    cases hy

theorem TrackInv.trackAssign {o : κ}
    (h : TrackInv s) (hpc : s.pc t = .trackAssign call o) (found : Bool) (alloc : Option κ) :
    TrackInv (s.advance t found alloc) := by
  have hcall : (s.pc t).call = some call := by rw [hpc]; rfl
  have hlife := (h.threads t).tracks call hcall
  have hempty := h.entry_of_tracking hlife
  have hholds := (h.threads t).holds
  rw [hpc] at hholds
  obtain ⟨hpos, htype, hid, hgot⟩ := hholds
  have hhand := Nat.lt_of_lt_of_le hpos (owned_le_hands s t o)
  have hlive := h.heap.live_of_pos (h.heap.pos_of_hand hhand)
  simp only [TrackState.advance, hpc]
  have hkeeps := keeps_assign s.heap call.id (some o) none
  have hassign : s.heap.kphCidAssignObject call.id (some o) =
      (s.heap.kphReferenceObject o).setEntry call.id (some o) := by
    simp only [TrackHeap.kphCidAssignObject, hempty]
  have hentry : ∀ i, (s.heap.kphCidAssignObject call.id (some o)).entry i =
      Function.update s.heap.entry call.id (some o) i := fun i => by rw [hassign]; rfl
  have hgotten : (s.heap.kphCidAssignObject call.id (some o)).entryGot = s.heap.entryGot := by
    rw [hassign]
    rfl
  have hheap := h.heap.assign_some hhand hempty hid
  refine h.step .idle rfl (fun _ _ => rfl) (fun u hu i hi => ?_) hkeeps (fun y hy => (by cases hy))
    hheap (fun c hc => (by cases hc)) (fun y hy => (by cases hy)) trivial (fun i hi => ?_)
    (fun i y hy => ?_) (fun y hy => (by cases hy)) (fun i y hy => .inl ?_) fun y hy => .inr (.inl ?_)
  · have hne := ne_of_life hu (.inl hlife) hi
    exact ⟨Function.update_of_ne hne .., (hentry i).trans (Function.update_of_ne hne ..)⟩
  · exact (congrFun hgotten i).trans hi
  · have hy := (hentry i).symm.trans hy
    by_cases hne : i = call.id
    · subst hne
      rw [Function.update_self] at hy
      obtain rfl := Option.some.inj hy
      refine .inr ⟨(congrFun hgotten _).trans hgot, .inl ?_⟩
      show Function.update s.life call.id _ call.id = .tracked _
      rw [Function.update_self]
      exact congrArg CidLife.tracked ((hkeeps.type o hlive).trans htype).symm
    · rw [Function.update_of_ne hne] at hy
      exact .inl ⟨hy, Function.update_of_ne hne ..⟩
  · have hne : i ≠ call.id := by
      rintro rfl
      rw [hempty] at hy
      cases hy
    exact (hentry i).trans ((Function.update_of_ne hne ..).trans hy)
  · rw [hpc] at hy
    obtain rfl := Option.some.inj hy
    have hid' : (s.heap.kphCidAssignObject call.id (some o)).id o = call.id :=
      (hkeeps.id o hlive).trans hid
    show (s.heap.kphCidAssignObject call.id (some o)).entry
      ((s.heap.kphCidAssignObject call.id (some o)).id o) = some o
    rw [hid', hentry, Function.update_self]

/-! ## Untracking -/

theorem TrackInv.type_of_untracking {i : Nat}
    {o : κ} (h : TrackInv s) (hlife : s.life i = .untracking type t) (hentry : s.heap.entry i = some o) :
    s.heap.type o = type := by
  rcases h.entries i o hentry with hother | ⟨u, hother⟩
  · cases hlife.symm.trans hother
  · cases hlife.symm.trans hother
    rfl

theorem TrackInv.untrackReference {id : Nat}
    (h : TrackInv s) (hpc : s.pc t = .untrackReference type id) (found : Bool) (alloc : Option κ)
    (hfound : s.heap.entryGot id = true → found = true) : TrackInv (s.advance t found alloc) := by
  have hanchor : (s.pc t).anchor = none := by rw [hpc]; rfl
  have huntracks : (s.pc t).untracks = some (type, id) := by rw [hpc]; rfl
  have hlife := (h.threads t).untracks _ huntracks
  simp only [TrackState.advance, hpc]
  cases found with
  | false =>
      have hempty : s.heap.entry id = none := by
        refine Option.eq_none_iff_forall_ne_some.mpr fun o hentry => ?_
        exact absurd (hfound (h.got id o hentry)) (by decide)
      refine h.finish (.inr ⟨type, hlife⟩) rfl (fun _ _ => rfl) rfl rfl hempty (Keeps.refl _ _)
        h.heap (fun _ hi => hi) fun o ho => ?_
      rw [hanchor] at ho
      cases ho
  | true =>
      cases hentry : s.heap.entry id with
      | none =>
          exact h.local (.untrackAssign type id none) rfl (fun _ _ => rfl) rfl rfl
            (keeps_got s.heap id none) (h.heap.got id) (.inr rfl) (.inl huntracks.symm)
            ⟨hentry, fun o ho => (by cases ho)⟩ (fun _ hi => gotEntry_mono s id hi) hanchor
      | some object =>
          have H := (h.heap.got id).reference (h.heap.pos_of_entry hentry)
          rw [← hands_take s t object] at H
          refine h.local (.untrackFound type id object) rfl (fun u hu => Function.update_of_ne hu ..)
            rfl rfl ((keeps_got s.heap id none).trans (keeps_reference _ object none) rfl) H
            (.inr rfl) (.inl huntracks.symm) ⟨?_, hentry⟩ (fun _ hi => gotEntry_mono s id hi) hanchor
          show 0 < Function.update s.owned t _ t object
          rw [Function.update_self, Function.update_self]
          omega

theorem TrackInv.untrackFound {id : Nat}
    {object : κ} (h : TrackInv s) (hpc : s.pc t = .untrackFound type id object) (found : Bool)
    (alloc : Option κ) : TrackInv (s.advance t found alloc) := by
  have hanchor : (s.pc t).anchor = none := by rw [hpc]; rfl
  have huntracks : (s.pc t).untracks = some (type, id) := by rw [hpc]; rfl
  have hlife := (h.threads t).untracks _ huntracks
  have hholds := (h.threads t).holds
  rw [hpc] at hholds
  simp only [TrackState.advance, hpc]
  -- The entry has what was tracked under the id, and that is of the type.
  rw [if_pos (h.type_of_untracking hlife hholds.2)]
  refine h.local (.untrackAssign type id (some object)) rfl (fun _ _ => rfl) rfl rfl (Keeps.refl _ _)
    h.heap (.inr rfl) (.inl huntracks.symm) ⟨hholds.2, fun o ho => ?_⟩ (fun _ hi => hi) hanchor
  obtain rfl := Option.some.inj ho
  exact hholds.1

theorem assign_none_entry (h : TrackHeap κ) (id : Nat) :
    (h.kphCidAssignObject id none).entry = Function.update h.entry id none ∧
      (h.kphCidAssignObject id none).entryGot = h.entryGot := by
  unfold TrackHeap.kphCidAssignObject
  cases h.entry id <;> exact ⟨rfl, rfl⟩

theorem TrackInv.untrackAssign {id : Nat}
    {object : Option κ} (h : TrackInv s) (hpc : s.pc t = .untrackAssign type id object)
    (found : Bool) (alloc : Option κ) : TrackInv (s.advance t found alloc) := by
  have hanchor : (s.pc t).anchor = none := by rw [hpc]; rfl
  have huntracks : (s.pc t).untracks = some (type, id) := by rw [hpc]; rfl
  have hlife := (h.threads t).untracks _ huntracks
  have hholds := (h.threads t).holds
  rw [hpc] at hholds
  obtain ⟨hentry, hown⟩ := hholds
  obtain ⟨hassign, hgot⟩ := assign_none_entry s.heap id
  have hkeeps := keeps_assign s.heap id none none
  have hheap : HeapInv (s.heap.kphCidAssignObject id none) s.hands := h.heap.assign_none
  simp only [TrackState.advance, hpc]
  cases object with
  | none =>
      have hsame : (s.heap.kphCidAssignObject id none).entry = s.heap.entry := by
        rw [hassign, ← hentry, Function.update_eq_self]
      refine h.finish (.inr ⟨type, hlife⟩) rfl (fun _ _ => rfl) rfl hsame hentry hkeeps hheap
        (fun i hi => (congrFun hgot i).trans hi) fun o ho => ?_
      rw [hanchor] at ho
      cases ho
  | some o =>
      have hpos := hown o rfl
      have hlive := h.heap.live_of_pos (h.heap.pos_of_entry hentry)
      have htype := h.type_of_untracking hlife hentry
      have hid := h.heap.entry id o hentry
      have hentry' : ∀ i, (s.heap.kphCidAssignObject id none).entry i =
          Function.update s.heap.entry id none i := congrFun hassign
      refine h.step (.untrackUnlink type id o) rfl (fun _ _ => rfl) (fun u hu i hi => ⟨rfl, ?_⟩) hkeeps
        (fun y hy => (by cases hy)) hheap (fun c hc => (by cases hc)) (fun y hy => ?_)
        ⟨hpos, (hkeeps.type o hlive).trans htype, (hkeeps.id o hlive).trans hid, ?_⟩
        (fun i hi => (congrFun hgot i).trans hi) (fun i y hy => .inl ⟨?_, rfl⟩)
        (fun y hy => (by cases hy)) (fun i y hy => ?_) fun y hy => ?_
      · exact (hentry' i).trans (Function.update_of_ne (ne_of_life hu (.inr ⟨type, hlife⟩) hi) ..)
      · obtain rfl := Option.some.inj hy
        exact hlife
      · exact (hentry' id).trans (Function.update_self ..)
      · have hy := (hentry' i).symm.trans hy
        by_cases hne : i = id
        · rw [hne, Function.update_self] at hy
          cases hy
        · rwa [Function.update_of_ne hne] at hy
      · by_cases hne : i = id
        · subst hne
          obtain rfl := Option.some.inj (hentry.symm.trans hy)
          cases type with
          | thread => exact .inr (.inr rfl)
          | process =>
              refine .inr (.inl (hheap.apart_of_process ?_ ((hkeeps.type o hlive).trans htype)))
              exact hheap.live_of_pos (hheap.pos_of_hand
                (Nat.lt_of_lt_of_le hpos (owned_le_hands s t o)))
        · exact .inl ((hentry' i).trans ((Function.update_of_ne hne ..).trans hy))
      · rw [hanchor] at hy
        cases hy

theorem TrackInv.untrackUnlink {id : Nat} {o : κ}
    (h : TrackInv s) (hpc : s.pc t = .untrackUnlink type id o) (found : Bool) (alloc : Option κ) :
    TrackInv (s.advance t found alloc) := by
  have huntracks : (s.pc t).untracks = some (type, id) := by rw [hpc]; rfl
  have hlife := (h.threads t).untracks _ huntracks
  have hholds := (h.threads t).holds
  rw [hpc] at hholds
  obtain ⟨hpos, htype, hid, hentry⟩ := hholds
  simp only [TrackState.advance, hpc]
  cases type with
  | process =>
      obtain ⟨hsame, hgot⟩ := unlink_entry s.heap o
      refine h.finish (.inr ⟨.process, hlife⟩) rfl (fun _ _ => rfl) rfl hsame hentry
        (keeps_unlink s.heap o none) (h.heap.unlink o) (fun i hi => (congrFun hgot i).trans hi)
        fun y hy => ?_
      rw [hpc] at hy
      cases hy
  | thread =>
      cases hcontext : s.heap.processContext o with
      | none =>
          refine h.finish (.inr ⟨.thread, hlife⟩) rfl (fun _ _ => rfl) rfl rfl hentry
            (Keeps.refl _ _) h.heap (fun _ hi => hi) fun y hy => ?_
          rw [hpc] at hy
          obtain rfl := Option.some.inj hy
          exact ⟨h.heap.not_listed_of_none hcontext, h.heap.not_initial_of_none hcontext⟩
      | some process =>
          obtain ⟨hsame, hgot⟩ := leave_entry s.heap process o
          obtain ⟨hheap, hapart⟩ := h.heap.leave hcontext
          refine h.finish (.inr ⟨.thread, hlife⟩) rfl (fun _ _ => rfl) rfl hsame hentry
            (keeps_leave s.heap process o none) hheap (fun i hi => (congrFun hgot i).trans hi)
            fun y hy => ?_
          rw [hpc] at hy
          obtain rfl := Option.some.inj hy
          exact hapart

/-! ## Runs -/

theorem TrackInv.advance {found : Bool} {alloc : Option κ}
    (h : TrackInv s)
    (hfound : ∀ id, (s.pc t).gets = some id → s.heap.entryGot id = true → found = true)
    (halloc : ∀ object, alloc = some object → object ∉ s.heap.live) :
    TrackInv (s.advance t found alloc) := by
  cases hpc : s.pc t with
  | idle =>
      simp only [TrackState.advance, hpc]
      exact h
  | lookupReference creating type id => exact h.lookupReference hpc found alloc
  | lookupFound creating type object => exact h.lookupFound hpc found alloc
  | trackReference call => exact h.trackReference hpc found alloc
  | trackFound call object =>
      have hholds := (h.threads t).holds
      rw [hpc] at hholds
      exact absurd hholds id
  | trackCreate call => exact h.trackCreate hpc found alloc halloc
  | threadJoin call o p => exact h.threadJoin hpc found alloc
  | trackAssign call o => exact h.trackAssign hpc found alloc
  | untrackReference type id =>
      exact h.untrackReference hpc found alloc (hfound id (by rw [hpc]; rfl))
  | untrackFound type id o => exact h.untrackFound hpc found alloc
  | untrackAssign type id object => exact h.untrackAssign hpc found alloc
  | untrackUnlink type id o => exact h.untrackUnlink hpc found alloc

theorem TrackInv.take {o : κ} (h : TrackInv s) (hpc : s.pc t = .idle)
    (hpos : 0 < s.heap.pointerCount o) : TrackInv (s.take t o) := by
  have H := h.heap.reference hpos
  rw [← hands_take s t o] at H
  have hsame : (s.take t o).pc = Function.update s.pc t .idle := by
    rw [← hpc, Function.update_eq_self]
    rfl
  exact h.local .idle hsame (fun u hu => Function.update_of_ne hu ..) rfl rfl
    (keeps_reference s.heap o none) H (.inr rfl) (.inr rfl) trivial (fun _ hi => hi)
    (by rw [hpc]; rfl)

theorem TrackInv.drop {o : κ} (h : TrackInv s) (hpc : s.pc t = .idle)
    (hown : 0 < s.owned t o) : TrackInv (s.drop t o) := by
  have H : HeapInv (s.drop t o).heap (s.drop t o).hands := by
    refine HeapInv.dereference ?_
    show HeapInv s.heap ((s.setOwned t o (s.owned t o - 1)).hands + Pi.single o 1)
    rw [hands_drop s t o hown]
    exact h.heap
  have hsame : (s.drop t o).pc = Function.update s.pc t .idle := by
    rw [← hpc, Function.update_eq_self]
    rfl
  exact h.local .idle hsame (fun u hu => Function.update_of_ne hu ..) rfl rfl
    (keeps_dereference s.heap o none) H (.inr rfl) (.inr rfl) trivial (fun _ hi => hi)
    (by rw [hpc]; rfl)

theorem TrackInv.callStarts {id : Nat} {pc : TrackPc κ} {life : CidLife τ}
    (h : TrackInv s) (hpc : s.pc t = .idle)
    (hfree : ∀ u, s.life id ≠ .tracking u ∧ ∀ type, s.life id ≠ .untracking type u)
    (htracks : ∀ call, pc.call = some call → call.id = id ∧ life = .tracking t)
    (huntracks : ∀ y, pc.untracks = some y → y.2 = id ∧ life = .untracking y.1 t)
    (hholds : pc.Holds s.heap (s.owned t))
    (hentry : ∀ o, s.heap.entry id = some o → life = .untracking (s.heap.type o) t) :
    TrackInv { s.goto t pc with life := Function.update s.life id life } := by
  have hother : ∀ i, i ≠ id → Function.update s.life id life i = s.life i :=
    fun i hi => Function.update_of_ne hi ..
  have hself : Function.update s.life id life id = life := Function.update_self ..
  refine h.step pc rfl (fun _ _ => rfl) (fun u hu i hi => ⟨hother i ?_, rfl⟩) (Keeps.refl _ none)
    (fun o ho => (by cases ho)) h.heap (fun c hc => ?_) (fun y hy => ?_) hholds (fun _ hi => hi)
    (fun i o hi => ?_) (fun o ho => (by cases ho)) (fun i o hi => .inl hi) fun o ho => ?_
  · rintro rfl
    rcases hi with hi | ⟨type, hi⟩
    · exact (hfree u).1 hi
    · exact (hfree u).2 type hi
  · obtain ⟨rfl, rfl⟩ := htracks c hc
    exact hself
  · obtain ⟨rfl, hlife⟩ := huntracks y hy
    exact hself.trans hlife
  · by_cases hne : i = id
    · subst hne
      exact .inr ⟨h.got i o hi, .inr ⟨t, hself.trans (hentry o hi)⟩⟩
    · exact .inl ⟨hi, hother i hne⟩
  · rw [hpc] at ho
    cases ho

theorem delete_entry (h : TrackHeap κ) (o : κ) :
    (h.delete o).entry = h.entry ∧ (h.delete o).entryGot = h.entryGot := by
  unfold TrackHeap.delete
  cases h.processContext o <;> exact ⟨rfl, rfl⟩

theorem TrackInv.delete {o : κ} (h : TrackInv s)
    (hmem : o ∈ s.heap.condemned) : TrackInv { s with heap := s.heap.delete o } := by
  obtain ⟨hentry, hgot⟩ := delete_entry s.heap o
  have hkeeps := keeps_delete s.heap o none
  have hlive : ∀ i x, s.heap.entry i = some x → x ∈ s.heap.live := fun i x hi =>
    h.heap.live_of_pos (h.heap.pos_of_entry hi)
  refine ⟨h.heap.delete hmem, fun u => ?_, fun i x hi => ?_, fun i x hi => ?_, fun x => ?_⟩
  · exact (h.threads u).undisturbed h.heap (owned_le_hands s u) ⟨rfl, rfl, fun _ hi => hi,
      fun i type hi => ⟨hi, congrFun hentry i⟩, ⟨none, hkeeps, fun y _ hy => (by cases hy)⟩,
      fun i hi => (congrFun hgot i).trans hi⟩
  · have hi := (congrFun hentry i).symm.trans hi
    show s.life i = .tracked ((s.heap.delete o).type x) ∨
      ∃ u, s.life i = .untracking ((s.heap.delete o).type x) u
    rw [hkeeps.type x (hlive i x hi)]
    exact h.entries i x hi
  · exact (congrFun hgot i).trans (h.got i x ((congrFun hentry i).symm.trans hi))
  · rcases h.anchored x with hapart | hold | hold
    · exact .inl (hkeeps.apart x (by simp) hapart)
    · refine .inr (.inl ?_)
      show (s.heap.delete o).entry ((s.heap.delete o).id x) = some x
      rw [hkeeps.id x (hlive _ x hold), hentry]
      exact hold
    · exact .inr (.inr hold)

theorem TrackInv.entry_of_absent {i : Nat} (h : TrackInv s)
    (hlife : s.life i = .absent) : s.heap.entry i = none := by
  refine Option.eq_none_iff_forall_ne_some.mpr fun o hentry => ?_
  rcases h.entries i o hentry with hother | ⟨u, hother⟩
  · cases hlife.symm.trans hother
  · cases hlife.symm.trans hother

theorem TrackStep.inv {s s' : TrackState τ κ} (hstep : TrackStep s s') (h : TrackInv s) :
    TrackInv s' := by
  cases hstep with
  | advance t found alloc hfound halloc => exact h.advance hfound halloc
  | kphTrackContext t call hpc hlife =>
      refine h.callStarts hpc (fun u => ⟨by rw [hlife]; simp, fun type => by rw [hlife]; simp⟩)
        (fun c hc => ?_) (fun y hy => (by cases hy)) trivial fun o ho => ?_
      · obtain rfl := Option.some.inj hc
        exact ⟨rfl, rfl⟩
      · exact absurd ((h.entry_of_absent hlife).symm.trans ho) (by simp)
  | kphUntrackContext t type id hpc hlife =>
      refine h.callStarts hpc (fun u => ⟨by rw [hlife]; simp, fun type => by rw [hlife]; simp⟩)
        (fun c hc => (by cases hc)) (fun y hy => ?_) trivial fun o ho => ?_
      · obtain rfl := Option.some.inj hy
        exact ⟨rfl, rfl⟩
      · rcases h.entries id o ho with hold | ⟨u, hold⟩
        · cases hlife.symm.trans hold
          rfl
        · cases hlife.symm.trans hold
  | kphpLookupContext t type id hpc =>
      exact h.local (.lookupReference none type id) rfl (fun _ _ => rfl) rfl rfl (Keeps.refl _ _)
        h.heap (.inr rfl) (.inr rfl) (fun c hc => (by cases hc)) (fun _ hi => hi) (by rw [hpc]; rfl)
  | kphReferenceObject t o hpc hown =>
      exact h.take hpc (h.heap.pos_of_hand (Nat.lt_of_lt_of_le hown (owned_le_hands s t o)))
  | kphDereferenceObject t o hpc hown => exact h.drop hpc hown
  | initialThread t p o hpc hown hinitial => exact h.take hpc (h.heap.pos_of_initial hinitial)
  | delete o hmem => exact h.delete hmem

theorem trackInv_start : TrackInv (TrackState.start : TrackState τ κ) := by
  have hback : ∀ o, (TrackState.start : TrackState τ κ).heap.backRefs o = 0 := fun o => rfl
  have hhands : ∀ o, (TrackState.start : TrackState τ κ).hands o = 0 := fun o =>
    total_eq_zero fun _ => rfl
  have hroles : ∀ o, (TrackState.start : TrackState τ κ).heap.tableRef o = 0 ∧
      (TrackState.start : TrackState τ κ).heap.listRef o = 0 ∧
      (TrackState.start : TrackState τ κ).heap.initialRef o = 0 := fun o => ⟨rfl, rfl, rfl⟩
  refine ⟨⟨fun o => ?_, fun _ _ => rfl, fun o => ?_, List.nodup_nil, fun i o hi => (by cases hi),
    fun o ho => ?_, fun p o => ?_, fun o ho => (by cases ho), fun p => List.nodup_nil, fun p => rfl,
    fun p o ho => (by cases ho)⟩, fun u => ⟨fun c hc => (by cases hc), fun y hy => (by cases hy),
    trivial⟩, fun i o hi => (by cases hi), fun i o hi => (by cases hi), fun o => .inl ⟨rfl, ?_⟩⟩
  · rw [hback, hhands, (hroles o).1, (hroles o).2.1, (hroles o).2.2]
    rfl
  · simp [TrackState.start]
  · simp [TrackState.start] at ho
  · simp [TrackState.start]
  · simp [TrackState.start]

theorem trackInv_of_reachable (h : Relation.ReflTransGen TrackStep .start s) :
    TrackInv s := by
  induction h with
  | refl => exact trackInv_start
  | tail _ hstep ih => exact hstep.inv ih

structure TrackExact (s : TrackState τ κ) : Prop where
  lists : ∀ p ∈ s.heap.live, s.heap.type p = .process →
    (s.heap.threadList p).Nodup ∧
      (∀ o, o ∈ s.heap.threadList p ↔ o ∈ s.heap.live ∧ s.heap.type o = .thread ∧
        s.heap.processContext o = some p ∧ s.heap.inThreadList o = true) ∧
      s.heap.numberOfThreads p = (s.heap.threadList p).length
  counts : ∀ o ∈ s.heap.live, s.heap.type o = .thread →
    s.heap.pointerCount o =
      s.heap.tableRef o + s.heap.listRef o + s.heap.initialRef o + s.hands o
  /-- Nothing that is referred to is deleted. -/
  kept : ∀ o, ((∃ i, s.heap.entry i = some o) ∨ (∃ p, o ∈ s.heap.threadList p) ∨
    (∃ p, s.heap.initialThread p = some o) ∨ ∃ t, 0 < s.owned t o) → o ∈ s.heap.live

/-- Every id is untracked, and callers have no references. -/
structure TrackState.Untracked (s : TrackState τ κ) : Prop where
  life : ∀ id, s.life id = .absent
  owned : ∀ t o, s.owned t o = 0

def DeleteStep (s s' : TrackState τ κ) : Prop :=
  ∃ o ∈ s.heap.condemned, s' = { s with heap := s.heap.delete o }

theorem TrackInv.backRefs_of_thread {o : κ} (h : TrackInv s)
    (htype : s.heap.type o = .thread) : s.heap.backRefs o = 0 := by
  refine Finset.card_eq_zero.mpr (Finset.filter_eq_empty_iff.mpr fun x hx hcontext => ?_)
  exact absurd (htype.symm.trans (h.heap.context x hx o hcontext).2) (by decide)

theorem TrackInv.exact (h : TrackInv s) : TrackExact s := by
  refine ⟨fun p _ _ => ⟨h.heap.listNodup p, fun o => ?_, h.heap.number p⟩, fun o _ htype => ?_,
    fun o ho => ?_⟩
  · rw [h.heap.lists]
    constructor
    · rintro ⟨hlive, hcontext, hlisted⟩
      exact ⟨hlive, (h.heap.context o hlive p hcontext).1, hcontext, hlisted⟩
    · rintro ⟨hlive, -, hcontext, hlisted⟩
      exact ⟨hlive, hcontext, hlisted⟩
  · have hcounts := h.heap.counts o
    rw [h.backRefs_of_thread htype] at hcounts
    exact hcounts
  · rcases ho with ⟨i, hentry⟩ | ⟨p, hlist⟩ | ⟨p, hinitial⟩ | ⟨t, hown⟩
    · exact h.heap.live_of_pos (h.heap.pos_of_entry hentry)
    · exact ((h.heap.lists p o).mp hlist).1
    · exact (h.heap.initial p o hinitial).1
    · exact h.heap.live_of_pos (h.heap.pos_of_hand
        (Nat.lt_of_lt_of_le hown (owned_le_hands s t o)))

theorem TrackInv.apart_of_untracked (h : TrackInv s) (hs : s.Untracked) (o : κ) :
    s.heap.Apart o := by
  rcases h.anchored o with hapart | hentry | ⟨u, hu⟩
  · exact hapart
  · exact absurd ((h.entry_of_absent (hs.life _)).symm.trans hentry) (by simp)
  · have hok := h.threads u
    cases hpc : s.pc u with
    | trackAssign call object =>
        have hlife := hok.tracks call (by rw [hpc]; rfl)
        exact absurd ((hs.life _).symm.trans hlife) (by simp)
    | untrackUnlink type id object =>
        have hlife := hok.untracks (type, id) (by rw [hpc]; rfl)
        exact absurd ((hs.life _).symm.trans hlife) (by simp)
    | _ =>
        rw [hpc] at hu
        cases hu

theorem initialRef_of_apart {h : TrackHeap κ} {o : κ} (hapart : h.Apart o) : h.initialRef o = 0 := by
  cases hcontext : h.processContext o with
  | none => exact initialRef_of_none hcontext
  | some p =>
      rw [initialRef_of_context hcontext]
      exact if_neg (hapart.initial p)

theorem TrackInv.count_of_untracked (h : TrackInv s) (hs : s.Untracked) (o : κ) :
    s.heap.pointerCount o = s.heap.backRefs o := by
  have hcounts := h.heap.counts o
  have hapart := h.apart_of_untracked hs o
  have htable : s.heap.tableRef o = 0 := by
    rw [TrackHeap.tableRef, h.entry_of_absent (hs.life _), if_neg (by simp)]
  have hlist : s.heap.listRef o = 0 := by
    rw [TrackHeap.listRef, hapart.list, if_neg (by simp)]
  have hhands : s.hands o = 0 := total_eq_zero fun t => hs.owned t o
  rw [htable, hlist, initialRef_of_apart hapart, hhands] at hcounts
  omega

theorem TrackInv.live_of_untracked (h : TrackInv s) (hs : s.Untracked)
    (hcondemned : s.heap.condemned = []) : s.heap.live = ∅ := by
  have hcount : ∀ o ∈ s.heap.live, s.heap.pointerCount o ≠ 0 := by
    intro o hlive hzero
    have hmem := (h.heap.condemned o).mpr ⟨hlive, hzero⟩
    rw [hcondemned] at hmem
    cases hmem
  have hthread : ∀ o ∈ s.heap.live, s.heap.type o ≠ .thread := by
    intro o hlive htype
    refine hcount o hlive ?_
    rw [h.count_of_untracked hs, h.backRefs_of_thread htype]
  refine Finset.eq_empty_iff_forall_notMem.mpr fun p hlive => hcount p hlive ?_
  rw [h.count_of_untracked hs]
  refine Finset.card_eq_zero.mpr (Finset.filter_eq_empty_iff.mpr fun o ho hcontext => ?_)
  exact hthread o ho (h.heap.context o ho p hcontext).1

theorem DeleteStep.keeps {s s' : TrackState τ κ} (hstep : DeleteStep s s') (h : TrackInv s)
    (hs : s.Untracked) : TrackInv s' ∧ s'.Untracked := by
  obtain ⟨o, hmem, rfl⟩ := hstep
  exact ⟨h.delete hmem, ⟨hs.life, hs.owned⟩⟩

theorem TrackInv.deletes (h : TrackInv s) (hs : s.Untracked) :
    ∃ s', Relation.ReflTransGen DeleteStep s s' ∧ s'.heap.live = ∅ := by
  generalize hn : s.heap.live.card = n
  induction n generalizing s with
  | zero => exact ⟨s, .refl, Finset.card_eq_zero.mp hn⟩
  | succ n ih =>
      cases hcondemned : s.heap.condemned with
      | nil =>
          rw [h.live_of_untracked hs hcondemned] at hn
          cases hn
      | cons o rest =>
          have hmem : o ∈ s.heap.condemned := hcondemned ▸ List.mem_cons_self
          have hstep : DeleteStep s { s with heap := s.heap.delete o } := ⟨o, hmem, rfl⟩
          obtain ⟨h', hs'⟩ := hstep.keeps h hs
          have hlive : (s.heap.delete o).live = s.heap.live.erase o := by
            unfold TrackHeap.delete
            cases s.heap.processContext o <;> rfl
          have hcard : (s.heap.delete o).live.card = n := by
            rw [hlive, Finset.card_erase_of_mem ((h.heap.condemned o).mp hmem).1, hn]
            rfl
          obtain ⟨s'', hrun, hempty⟩ := ih h' hs' hcard
          exact ⟨s'', .head hstep hrun, hempty⟩

/-- In every reachable state the lists and the counts are exact, and once every id is
untracked and callers have no references the deferred deletions delete every context. -/
theorem kphpTrackContext_exact {s : TrackState τ κ}
    (h : Relation.ReflTransGen TrackStep .start s) :
    TrackExact s ∧ (s.Untracked →
      (∀ s', Relation.ReflTransGen DeleteStep s s' → s'.heap.condemned = [] → s'.heap.live = ∅) ∧
      ∃ s', Relation.ReflTransGen DeleteStep s s' ∧ s'.heap.live = ∅) := by
  have hinv := trackInv_of_reachable h
  refine ⟨hinv.exact, fun hs => ⟨fun s' hrun => ?_, hinv.deletes hs⟩⟩
  have hkeeps : TrackInv s' ∧ s'.Untracked := by
    induction hrun with
    | refl => exact ⟨hinv, hs⟩
    | tail _ hstep ih => exact hstep.keeps ih.1 ih.2
  exact hkeeps.1.live_of_untracked hkeeps.2

end

/-! The process 4 exits after its thread 8 has found it and before the thread joins it. -/

/-- A thread goes on, and gets every entry. -/
def trackOn (t : Bool) (n : Nat) (s : TrackState Bool Nat) : TrackState Bool Nat :=
  (fun s => s.advance t true none)^[n] s

theorem trackOn_reachable (t : Bool) (n : Nat) (s : TrackState Bool Nat) :
    Relation.ReflTransGen TrackStep s (trackOn t n s) := by
  induction n generalizing s with
  | zero => exact .refl
  | succ n ih =>
      exact .head (.advance t true none (fun _ _ _ => rfl) fun _ hno => (by cases hno))
        (ih (s.advance t true none))

/-- `KphpTrackContext` by the first thread up to the creation of the object. -/
def creatingState (s : TrackState Bool Nat) (call : TrackCall) (object : Nat) :
    TrackState Bool Nat :=
  (trackOn false 1 { s.goto false (.trackReference call) with
    life := Function.update s.life call.id (.tracking false) }).advance false true (some object)

theorem creatingState_reachable {s : TrackState Bool Nat} {call : TrackCall} {object : Nat}
    (hpc : s.pc false = .idle) (hlife : s.life call.id = .absent)
    (hdead : object ∉ (trackOn false 1 { s.goto false (.trackReference call) with
      life := Function.update s.life call.id (.tracking false) }).heap.live) :
    Relation.ReflTransGen TrackStep s (creatingState s call object) := by
  refine .head (.kphTrackContext false call hpc hlife) (.tail (trackOn_reachable false 1 _) ?_)
  refine .advance false true (some object) (fun _ _ _ => rfl) fun o ho => ?_
  obtain rfl := Option.some.inj ho
  exact hdead

/-- `KphpUntrackContext` and what follows it, and the caller's release. -/
def untrackedState (s : TrackState Bool Nat) (t : Bool) (type : ContextType) (id object : Nat) :
    TrackState Bool Nat :=
  (trackOn t 4 { s.goto t (.untrackReference type id) with
    life := Function.update s.life id (.untracking type t) }).drop t object

theorem untrackedState_reachable {s : TrackState Bool Nat} {t : Bool} {type : ContextType}
    {id object : Nat} (hpc : s.pc t = .idle) (hlife : s.life id = .tracked type)
    (hdone : (trackOn t 4 { s.goto t (.untrackReference type id) with
      life := Function.update s.life id (.untracking type t) }).pc t = .idle)
    (hown : 0 < (trackOn t 4 { s.goto t (.untrackReference type id) with
      life := Function.update s.life id (.untracking type t) }).owned t object) :
    Relation.ReflTransGen TrackStep s (untrackedState s t type id object) :=
  .head (.kphUntrackContext t type id hpc hlife)
    (.tail (trackOn_reachable t 4 _) (.kphDereferenceObject t object hdone hown))

def processState : TrackState Bool Nat :=
  (trackOn false 1 (creatingState .start ⟨.process, 4, 0⟩ 1)).drop false 1

def foundState : TrackState Bool Nat :=
  trackOn false 2 (creatingState processState ⟨.thread, 8, 4⟩ 2)

def exitedState : TrackState Bool Nat := untrackedState foundState true .process 4 1

/-- The thread has joined the process, and is untracked later. -/
def joinedState : TrackState Bool Nat := (trackOn false 2 exitedState).drop false 2

def overState : TrackState Bool Nat := untrackedState joinedState false .thread 8 2

theorem processState_reachable : Relation.ReflTransGen TrackStep .start processState :=
  .tail (.trans (creatingState_reachable rfl rfl (by decide)) (trackOn_reachable false 1 _))
    (.kphDereferenceObject false 1 rfl (by decide))

theorem foundState_reachable : Relation.ReflTransGen TrackStep .start foundState :=
  .trans processState_reachable
    (.trans (creatingState_reachable rfl rfl (by decide)) (trackOn_reachable false 2 _))

theorem overState_reachable : Relation.ReflTransGen TrackStep .start overState := by
  refine .trans foundState_reachable (.trans (untrackedState_reachable rfl rfl rfl (by decide))
    (.trans (.tail (trackOn_reachable false 2 exitedState) ?_)
      (untrackedState_reachable rfl rfl rfl (by decide))))
  exact .kphDereferenceObject false 2 rfl (by decide)

theorem overState_untracked : overState.Untracked := by
  have hinv := trackInv_of_reachable overState_reachable
  have hlife : overState.life = Function.update (Function.update (Function.update (Function.update
      (Function.update (Function.update (Function.update (Function.update (fun _ => .absent)
      4 (.tracking false)) 4 (.tracked .process)) 8 (.tracking false)) 4 (.untracking .process true))
      4 .absent) 8 (.tracked .thread)) 8 (.untracking .thread false)) 8 .absent := rfl
  refine ⟨fun id => ?_, fun t o => ?_⟩
  · rw [hlife]
    by_cases h8 : id = 8
    · rw [h8, Function.update_self]
    · by_cases h4 : id = 4
      · subst h4
        rfl
      · simp only [Function.update_of_ne h8, Function.update_of_ne h4]
  · by_cases hlive : o ∈ overState.heap.live
    · have hmem : o = 2 ∨ o = 1 := by
        have hset : overState.heap.live = {2, 1} := rfl
        rw [hset, Finset.mem_insert, Finset.mem_singleton] at hlive
        exact hlive
      rcases hmem with rfl | rfl
      · cases t <;> rfl
      · cases t <;> rfl
    · have hzero := hinv.heap.dead o hlive
      have hcounts := hinv.heap.counts o
      have hle := owned_le_hands overState t o
      omega

theorem kphpTrackContext_exact_exit :
    overState.heap.condemned = [2] ∧ TrackExact overState ∧
      ∃ s', Relation.ReflTransGen DeleteStep overState s' ∧ s'.heap.live = ∅ :=
  ⟨rfl, (kphpTrackContext_exact overState_reachable).1,
    ((kphpTrackContext_exact overState_reachable).2 overState_untracked).2⟩

end SystemInformer.Driver
