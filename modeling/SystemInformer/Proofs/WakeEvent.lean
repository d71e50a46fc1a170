import SystemInformer.PhLib.WakeEvent
import SystemInformer.Lib.Links
import SystemInformer.Lib.Runs

/-!
# No wait block is touched when its owner has left

The blocks that are queued and not unblocked are on lists: the one of the event, and what each
thread that sets the event has yet to walk through. Each is on one of them only. The argument is
what the SPINNING flag tells the owner of a block: while the owner is awake, the flag is set as
long as the block is on a list, and whoever finds it set may clear it. If the thread that unblocks
clears it, the owner may leave. If the owner clears it, it goes to sleep, and does not leave before
the other thread meets it.

A wait that times out ends that: the owner is awake, the flag is clear, and the block still is on
a list.
-/

set_option linter.unusedSectionVars false

namespace SystemInformer.PhLib

open Links

variable {τ : Type} [DecidableEq τ]

/-! ## What the threads hold -/

/-- The list that a thread has yet to walk through. -/
def WakePc.remaining : WakePc τ → Option τ
  | .setNext _ waitBlock => waitBlock
  | .setUnblock _ waitBlock _ => some waitBlock
  | .setRelease _ waitBlock _ => some waitBlock
  | _ => none

def WakeEvent.heads (s : WakeEvent τ) : Option τ → Option τ
  | none => s.value
  | some u => (s.pc u).remaining

inductive BlockStage where
  | unused
  | filled
  | awake
  | asleep

def AfterSet.stage : AfterSet → BlockStage
  | .idle => .unused
  | .queued => .awake
  | .cancel => .awake

def WakePc.stage : WakePc τ → BlockStage
  | .idle => .unused
  | .queueRead => .filled
  | .queueNext _ => .filled
  | .queueExchange _ => .filled
  | .queued => .awake
  | .setExchange after => after.stage
  | .setNext after _ => after.stage
  | .setUnblock after _ _ => after.stage
  | .setRelease after _ _ => after.stage
  | .setCheck => .awake
  | .spin _ => .awake
  | .block _ => .awake
  | .keyedWait _ => .asleep

/-- What is known of the block: whether it is in use, has its flag, and is on a list. -/
def BlockStage.Meets : BlockStage → Bool → Bool → Bool → Prop
  | .unused, alive, _, listed => alive = false ∧ listed = false
  | .filled, alive, spinning, listed => alive = true ∧ spinning = true ∧ listed = false
  | .awake, alive, spinning, listed => alive = true ∧ spinning = listed
  | .asleep, alive, spinning, listed => alive = true ∧ spinning = false ∧ listed = true

def WakePc.Reads (s : WakeEvent τ) (t : τ) : WakePc τ → Prop
  | .queueExchange value => s.next t = value
  | .setUnblock _ b next => s.next b = next
  | .setRelease _ b next => s.next b = next ∧ ∃ timeout, s.pc b = .keyedWait timeout
  | _ => True

/-- `place` tells on which list a block is. -/
structure WakeEventInv (place : τ → Option (Option τ)) (s : WakeEvent τ) : Prop where
  lists : Lists s.next s.heads place
  reads : ∀ t, (s.pc t).Reads s t
  stage : ∀ t, (s.pc t).stage.Meets (s.alive t) (s.spinning t) (place t).isSome
  counts : ∀ t, s.pushed t = s.unblocked t + (place t).isSome.toNat
  strayed : s.strayed = false

theorem AfterSet.stage_ne_asleep (after : AfterSet) : after.stage ≠ .asleep := by
  cases after <;> simp [AfterSet.stage]

theorem WakePc.exists_keyedWait {pc : WakePc τ} (h : pc.stage = .asleep) :
    ∃ timeout, pc = .keyedWait timeout := by
  cases pc with
  | keyedWait timeout => exact ⟨timeout, rfl⟩
  | setExchange after => exact absurd h after.stage_ne_asleep
  | setNext after b => exact absurd h after.stage_ne_asleep
  | setUnblock after b next => exact absurd h after.stage_ne_asleep
  | setRelease after b next => exact absurd h after.stage_ne_asleep
  | _ => simp [WakePc.stage] at h

theorem BlockStage.Meets.alive {stage : BlockStage} {alive spinning : Bool}
    (h : stage.Meets alive spinning true) : alive = true := by
  cases stage with
  | unused => exact absurd h.2 (by simp)
  | filled => exact h.1
  | awake => exact h.1
  | asleep => exact h.1

theorem BlockStage.Meets.eq_asleep {stage : BlockStage} {alive : Bool}
    (h : stage.Meets alive false true) : stage = .asleep := by
  cases stage with
  | unused => exact absurd h.2 (by simp)
  | filled => exact absurd h.2.1 (by simp)
  | awake => exact absurd h.2 (by simp)
  | asleep => rfl

namespace WakeEvent

variable {s : WakeEvent τ} {t u b : τ} {pc : WakePc τ}

@[simp] theorem goto_pc_self : (s.goto t pc).pc t = pc := Function.update_self ..

theorem goto_pc_of_ne (h : u ≠ t) : (s.goto t pc).pc u = s.pc u := Function.update_of_ne h ..

theorem heads_goto : (s.goto t pc).heads = Function.update s.heads (some t) pc.remaining := by
  funext r
  cases r with
  | none => rfl
  | some u =>
      by_cases hu : u = t
      · simp [heads, hu]
      · have hne : some u ≠ some t := by simpa using hu
        rw [Function.update_of_ne hne, heads, goto_pc_of_ne hu]
        rfl

theorem heads_goto_same {s' : WakeEvent τ} (hvalue : s'.value = s.value) (hpcs : s'.pc = s.pc)
    (h : pc.remaining = (s.pc t).remaining) : (s'.goto t pc).heads = s.heads := by
  have hheads : s'.heads = s.heads := by
    funext r
    cases r with
    | none => exact hvalue
    | some u => rw [heads, heads, hpcs]
  rw [heads_goto, hheads, h]
  exact Function.update_eq_self (some t) s.heads

theorem goto_pc_asleep {timeout : Bool} (hawake : (s.pc t).stage ≠ .asleep)
    (hsleep : s.pc b = .keyedWait timeout) : (s.goto t pc).pc b = .keyedWait timeout := by
  rw [goto_pc_of_ne, hsleep]
  intro heq
  rw [← heq, hsleep] at hawake
  exact hawake rfl

theorem touch_eq (h : s.alive b = true) : s.touch b = s := by
  simp [touch, h]

end WakeEvent

theorem BlockStage.Meets.eq_awake {stage : BlockStage} {alive : Bool}
    (h : stage.Meets alive true true) : stage = .awake := by
  cases stage with
  | unused => exact absurd h.2 (by simp)
  | filled => exact absurd h.2.2 (by simp)
  | awake => rfl
  | asleep => exact absurd h.2.1 (by simp)

/-- What a thread has read depends on the links that it holds, its own block and the owners that
sleep. -/
theorem WakePc.Reads.congr {s s' : WakeEvent τ} {u : τ} {pc : WakePc τ} (h : pc.Reads s u)
    (hnext : ∀ b, pc.remaining = some b → s'.next b = s.next b) (hown : s'.next u = s.next u)
    (hsleep : ∀ b timeout, pc.remaining = some b → s.pc b = .keyedWait timeout →
      s'.pc b = .keyedWait timeout) : pc.Reads s' u := by
  cases pc with
  | queueExchange value => exact hown.trans h
  | setUnblock after b next => exact (hnext b rfl).trans h
  | setRelease after b next =>
      obtain ⟨hread, timeout, hpc⟩ := h
      exact ⟨(hnext b rfl).trans hread, timeout, hsleep b timeout rfl hpc⟩
  | _ => trivial

namespace WakeEventInv

variable {s s' : WakeEvent τ} {place : τ → Option (Option τ)} {t u b : τ} {pc : WakePc τ}

theorem place_of_remaining (h : WakeEventInv place s) (hpc : (s.pc u).remaining = some b) :
    place b = some (some u) := h.lists.place_head hpc

theorem alive_of_place (h : WakeEventInv place s) (hplace : (place b).isSome = true) :
    s.alive b = true := by
  have hstage := h.stage b
  rw [hplace] at hstage
  exact hstage.alive

theorem goto (h : WakeEventInv place s) (hremaining : pc.remaining = (s.pc t).remaining)
    (hawake : (s.pc t).stage ≠ .asleep) (hreads : pc.Reads s t)
    (hstage : pc.stage.Meets (s.alive t) (s.spinning t) (place t).isSome) :
    WakeEventInv place (s.goto t pc) := by
  refine ⟨?_, fun u => ?_, fun u => ?_, h.counts, h.strayed⟩
  · rw [WakeEvent.heads_goto_same rfl rfl hremaining]
    exact h.lists
  · by_cases hu : u = t
    · subst hu
      rw [WakeEvent.goto_pc_self]
      exact hreads.congr (fun _ _ => rfl) rfl fun b timeout _ => WakeEvent.goto_pc_asleep hawake
    · rw [WakeEvent.goto_pc_of_ne hu]
      exact (h.reads u).congr (fun _ _ => rfl) rfl fun b timeout _ => WakeEvent.goto_pc_asleep hawake
  · by_cases hu : u = t
    · subst hu
      rw [WakeEvent.goto_pc_self]
      exact hstage
    · rw [WakeEvent.goto_pc_of_ne hu]
      exact h.stage u

theorem move (h : WakeEventInv place s) (hremaining : pc.remaining = (s.pc t).remaining)
    (hawake : (s.pc t).stage ≠ .asleep) (hreads : pc.Reads s t)
    (hstage : pc.stage = (s.pc t).stage) : WakeEventInv place (s.goto t pc) := by
  refine h.goto hremaining hawake hreads ?_
  rw [hstage]
  exact h.stage t

/-! ## Queueing a block -/

/-- The owner does something with a block that is on no list: what it reads and writes concerns
nobody else. -/
theorem fill (h : WakeEventInv place s) (hplace : place t = none)
    (hremaining : (s.pc t).remaining = none) (hawake : (s.pc t).stage ≠ .asleep)
    (hpc : pc.remaining = none) {next : Option τ} {alive spinning : Bool}
    (hreads : ∀ value, pc = .queueExchange value → next = value)
    (hstage : pc.stage.Meets alive spinning false) :
    WakeEventInv place ({ s with
      next := Function.update s.next t next
      alive := Function.update s.alive t alive
      spinning := Function.update s.spinning t spinning }.goto t pc) := by
  have hnext : ∀ b, place b ≠ none → Function.update s.next t next b = s.next b := by
    intro b hb
    refine Function.update_of_ne (fun heq => hb ?_) ..
    rw [heq, hplace]
  have hheads : ({ s with
      next := Function.update s.next t next
      alive := Function.update s.alive t alive
      spinning := Function.update s.spinning t spinning }.goto t pc).heads = s.heads :=
    WakeEvent.heads_goto_same rfl rfl (hpc.trans hremaining.symm)
  refine ⟨?_, fun u => ?_, fun u => ?_, h.counts, h.strayed⟩
  · rw [hheads]
    exact h.lists.rewrite hnext
  · by_cases hu : u = t
    · subst hu
      rw [WakeEvent.goto_pc_self]
      cases pc with
      | queueExchange value =>
          show Function.update s.next u next u = value
          rw [Function.update_self]
          exact hreads value rfl
      | setUnblock after b next => simp [WakePc.remaining] at hpc
      | setRelease after b next => simp [WakePc.remaining] at hpc
      | _ => trivial
    · rw [WakeEvent.goto_pc_of_ne hu]
      refine (h.reads u).congr (fun b hb => hnext b ?_) (Function.update_of_ne hu ..)
        fun b timeout _ => WakeEvent.goto_pc_asleep hawake
      rw [h.place_of_remaining hb]
      simp
  · by_cases hu : u = t
    · subst hu
      rw [WakeEvent.goto_pc_self, hplace]
      show pc.stage.Meets (Function.update s.alive u alive u)
        (Function.update s.spinning u spinning u) false
      simpa using hstage
    · rw [WakeEvent.goto_pc_of_ne hu]
      show (s.pc u).stage.Meets (Function.update s.alive t alive u)
        (Function.update s.spinning t spinning u) (place u).isSome
      rw [Function.update_of_ne hu, Function.update_of_ne hu]
      exact h.stage u

theorem callQueue (h : WakeEventInv place s) (hpc : s.pc t = .idle) :
    WakeEventInv place (s.callQueue t) := by
  have hstage := h.stage t
  rw [hpc] at hstage
  have hplace : place t = none := by simpa using hstage.2
  have hfill := @fill _ _ s place t .queueRead h hplace (by simp [hpc, WakePc.remaining])
    (by simp [hpc, WakePc.stage]) rfl (s.next t) true true (by simp) ⟨rfl, rfl, rfl⟩
  rw [Function.update_eq_self] at hfill
  exact hfill

theorem push (h : WakeEventInv place s) (hpc : s.pc t = .queueExchange s.value) :
    WakeEventInv (Function.update place t (some none)) ({ s with
      value := some t
      pushed := Function.update s.pushed t (s.pushed t + 1) }.goto t .queued) := by
  have hstage := h.stage t
  rw [hpc] at hstage
  obtain ⟨halive, hspinning, hlisted⟩ := hstage
  have hplace : place t = none := by simpa using hlisted
  have hread := h.reads t
  rw [hpc] at hread
  have hawake : (s.pc t).stage ≠ .asleep := by simp [hpc, WakePc.stage]
  have hheads : ({ s with
      value := some t
      pushed := Function.update s.pushed t (s.pushed t + 1) }.goto t .queued).heads =
      Function.update s.heads none (some t) := by
    rw [WakeEvent.heads_goto]
    funext r
    cases r with
    | none => simp [WakeEvent.heads]
    | some u =>
        by_cases hu : u = t
        · simp [WakeEvent.heads, hu, hpc, WakePc.remaining]
        · simp [WakeEvent.heads, hu]
  refine ⟨?_, fun u => ?_, fun u => ?_, fun u => ?_, h.strayed⟩
  · rw [hheads]
    exact h.lists.push hplace hread
  · by_cases hu : u = t
    · subst hu
      rw [WakeEvent.goto_pc_self]
      trivial
    · rw [WakeEvent.goto_pc_of_ne hu]
      exact (h.reads u).congr (fun _ _ => rfl) rfl fun b timeout _ =>
        WakeEvent.goto_pc_asleep hawake
  · by_cases hu : u = t
    · subst hu
      rw [WakeEvent.goto_pc_self, Function.update_self]
      exact ⟨halive, hspinning⟩
    · rw [WakeEvent.goto_pc_of_ne hu, Function.update_of_ne hu]
      exact h.stage u
  · show Function.update s.pushed t (s.pushed t + 1) u =
      s.unblocked u + (Function.update place t (some none) u).isSome.toNat
    by_cases hu : u = t
    · subst hu
      have hcounts := h.counts u
      rw [hplace] at hcounts
      simpa using hcounts
    · rw [Function.update_of_ne hu, Function.update_of_ne hu]
      exact h.counts u

/-! ## Walking through the list -/

theorem exchange (h : WakeEventInv place s) {after : AfterSet} (hpc : s.pc t = .setExchange after) :
    WakeEventInv (fun b => if place b = some none then some (some t) else place b)
      ({ s with value := none }.goto t (.setNext after s.value)) := by
  have hawake : (s.pc t).stage ≠ .asleep := by
    rw [hpc]
    exact after.stage_ne_asleep
  have hlisted : ∀ b, (if place b = some none then some (some t) else place b).isSome =
      (place b).isSome := by
    intro b
    by_cases hplace : place b = some none
    · simp [hplace]
    · simp [hplace]
  have hheads : ({ s with value := none }.goto t (.setNext after s.value)).heads =
      Function.update (Function.update s.heads none none) (some t) (s.heads none) := by
    rw [WakeEvent.heads_goto]
    congr 1
    funext r
    cases r with
    | none => simp [WakeEvent.heads]
    | some u => simp [WakeEvent.heads]
  refine ⟨?_, fun u => ?_, fun u => ?_, fun u => ?_, h.strayed⟩
  · rw [hheads]
    refine h.lists.handOver (by simp) ?_
    rw [WakeEvent.heads, hpc]
    rfl
  · by_cases hu : u = t
    · subst hu
      rw [WakeEvent.goto_pc_self]
      trivial
    · rw [WakeEvent.goto_pc_of_ne hu]
      exact (h.reads u).congr (fun _ _ => rfl) rfl fun b timeout _ =>
        WakeEvent.goto_pc_asleep hawake
  · rw [hlisted u]
    by_cases hu : u = t
    · subst hu
      have hstage := h.stage u
      rw [hpc] at hstage
      rw [WakeEvent.goto_pc_self]
      exact hstage
    · rw [WakeEvent.goto_pc_of_ne hu]
      exact h.stage u
  · rw [hlisted u]
    exact h.counts u

theorem counts_pop (h : WakeEventInv place s) (hplace : (place b).isSome = true) (t : τ) :
    s.pushed t = Function.update s.unblocked b (s.unblocked b + 1) t +
      (Function.update place b none t).isSome.toNat := by
  have hcounts := h.counts t
  by_cases hb : t = b
  · subst hb
    rw [hplace] at hcounts
    simpa using hcounts
  · rw [Function.update_of_ne hb, Function.update_of_ne hb]
    exact hcounts

theorem unblock (h : WakeEventInv place s) {after : AfterSet} {next : Option τ}
    (hpc : s.pc u = .setUnblock after b next) (hspinning : s.spinning b = true) :
    WakeEventInv (Function.update place b none)
      (((s.clearSpinning b).countUnblock b).goto u (.setNext after next)) := by
  have hhead : (s.pc u).remaining = some b := by rw [hpc, WakePc.remaining]
  have hlisted : (place b).isSome = true := by rw [h.place_of_remaining hhead, Option.isSome_some]
  have hread := h.reads u
  rw [hpc] at hread
  have hawake : (s.pc u).stage ≠ .asleep := by
    rw [hpc]
    exact after.stage_ne_asleep
  have hheads : (((s.clearSpinning b).countUnblock b).goto u (.setNext after next)).heads =
      Function.update s.heads (some u) (s.next b) := by
    rw [WakeEvent.heads_goto]
    exact congrArg (Function.update s.heads (some u)) hread.symm
  refine ⟨?_, fun t => ?_, fun t => ?_, h.counts_pop hlisted, h.strayed⟩
  · rw [hheads]
    exact h.lists.pop hhead
  · by_cases ht : t = u
    · subst ht
      rw [WakeEvent.goto_pc_self]
      trivial
    · rw [WakeEvent.goto_pc_of_ne ht]
      exact (h.reads t).congr (fun _ _ => rfl) rfl fun b timeout _ =>
        WakeEvent.goto_pc_asleep hawake
  · have hsame : ((((s.clearSpinning b).countUnblock b).goto u (.setNext after next)).pc t).stage =
        (s.pc t).stage := by
      by_cases ht : t = u
      · subst ht
        rw [WakeEvent.goto_pc_self, hpc]
        rfl
      · rw [WakeEvent.goto_pc_of_ne ht]
        rfl
    have hstage := h.stage t
    rw [hsame]
    show (s.pc t).stage.Meets (s.alive t) (Function.update s.spinning b false t)
      (Function.update place b none t).isSome
    by_cases ht : t = b
    · subst ht
      rw [hlisted, hspinning] at hstage
      rw [Function.update_self, Function.update_self, hstage.eq_awake]
      exact ⟨hstage.alive, rfl⟩
    · rw [Function.update_of_ne ht, Function.update_of_ne ht]
      exact hstage

theorem release (h : WakeEventInv place s) {after : AfterSet} {next : Option τ}
    (hpc : s.pc u = .setUnblock after b next) (hspinning : s.spinning b = false) :
    WakeEventInv place (s.goto u (.setRelease after b next)) := by
  have hhead : (s.pc u).remaining = some b := by rw [hpc, WakePc.remaining]
  have hread := h.reads u
  rw [hpc] at hread
  have hstage := h.stage b
  rw [h.place_of_remaining hhead, Option.isSome_some, hspinning] at hstage
  have hawake : (s.pc u).stage ≠ .asleep := by
    rw [hpc]
    exact after.stage_ne_asleep
  refine h.move hhead.symm hawake ⟨hread, WakePc.exists_keyedWait hstage.eq_asleep⟩ ?_
  rw [hpc]
  rfl

theorem rendezvous (h : WakeEventInv place s) {after : AfterSet} {next : Option τ} {timeout : Bool}
    (hrelease : s.pc u = .setRelease after b next) (hwait : s.pc b = .keyedWait timeout) :
    WakeEventInv (Function.update place b none) (s.rendezvous u after b next) := by
  have hne : u ≠ b := by
    intro heq
    rw [heq, hwait] at hrelease
    cases hrelease
  have hhead : (s.pc u).remaining = some b := by rw [hrelease, WakePc.remaining]
  have hplace := h.place_of_remaining hhead
  have hlisted : (place b).isSome = true := by rw [hplace, Option.isSome_some]
  have hread := h.reads u
  rw [hrelease] at hread
  have hpcs : ∀ t, (s.rendezvous u after b next).pc t =
      if t = b then .idle else if t = u then .setNext after next else s.pc t := by
    intro t
    by_cases htb : t = b
    · simp [WakeEvent.rendezvous, WakeEvent.leave, WakeEvent.goto, htb]
    · by_cases htu : t = u
      · simp [WakeEvent.rendezvous, WakeEvent.leave, WakeEvent.goto, WakeEvent.countUnblock, htu,
          hne]
      · simp [WakeEvent.rendezvous, WakeEvent.leave, WakeEvent.goto, WakeEvent.countUnblock, htb,
          htu]
  have hheads : (s.rendezvous u after b next).heads =
      Function.update s.heads (some u) (s.next b) := by
    funext r
    cases r with
    | none => simp [WakeEvent.heads, WakeEvent.rendezvous, WakeEvent.leave, WakeEvent.goto,
        WakeEvent.countUnblock]
    | some t =>
        rw [WakeEvent.heads, hpcs t]
        by_cases htb : t = b
        · simp [htb, hne.symm, WakeEvent.heads, hwait, WakePc.remaining]
        · by_cases htu : t = u
          · simp [htu, hne, WakePc.remaining, hread.1]
          · simp [htb, htu, WakeEvent.heads]
  refine ⟨?_, fun t => ?_, fun t => ?_, h.counts_pop hlisted, h.strayed⟩
  · rw [hheads]
    exact h.lists.pop hhead
  · rw [hpcs t]
    split
    · trivial
    · next htb =>
        split
        · trivial
        · next htu =>
            refine (h.reads t).congr (fun _ _ => rfl) rfl fun c timeout hc hsleep => ?_
            have hcb : c ≠ b := by
              intro heq
              have hholder := h.place_of_remaining hc
              rw [heq, hplace] at hholder
              exact htu (Option.some.inj (Option.some.inj hholder)).symm
            have hcu : c ≠ u := by
              intro heq
              rw [heq, hrelease] at hsleep
              cases hsleep
            rw [hpcs c, if_neg hcb, if_neg hcu, hsleep]
  · have hstage := h.stage t
    rw [hpcs t]
    show BlockStage.Meets _ (Function.update s.alive b false t) (s.spinning t)
      (Function.update place b none t).isSome
    by_cases htb : t = b
    · subst htb
      rw [if_pos rfl, Function.update_self, Function.update_self]
      exact ⟨rfl, rfl⟩
    · rw [if_neg htb, Function.update_of_ne htb, Function.update_of_ne htb]
      by_cases htu : t = u
      · subst htu
        rw [hrelease] at hstage
        rw [if_pos rfl]
        exact hstage
      · rw [if_neg htu]
        exact hstage

/-! ## Waiting -/

theorem leave (h : WakeEventInv place s) (hstage : (s.pc t).stage = .awake)
    (hremaining : (s.pc t).remaining = none) (hspinning : s.spinning t = false) :
    WakeEventInv place (s.leave t) := by
  have hmeets := h.stage t
  rw [hstage, hspinning] at hmeets
  have hplace : place t = none := by simpa using hmeets.2.symm
  have hawake : (s.pc t).stage ≠ .asleep := by simp [hstage]
  have hfill := @fill _ _ s place t .idle h hplace hremaining hawake rfl (s.next t) false
    (s.spinning t) (by simp) ⟨rfl, rfl⟩
  rw [Function.update_eq_self, Function.update_eq_self] at hfill
  exact hfill

theorem sleep (h : WakeEventInv place s) {timeout : Bool} (hpc : s.pc t = .block timeout)
    (hspinning : s.spinning t = true) :
    WakeEventInv place ((s.clearSpinning t).goto t (.keyedWait timeout)) := by
  have hawake : (s.pc t).stage ≠ .asleep := by simp [hpc, WakePc.stage]
  have hheads : ((s.clearSpinning t).goto t (.keyedWait timeout)).heads = s.heads :=
    WakeEvent.heads_goto_same rfl rfl (by rw [hpc]; rfl)
  refine ⟨?_, fun u => ?_, fun u => ?_, h.counts, h.strayed⟩
  · rw [hheads]
    exact h.lists
  · by_cases hu : u = t
    · subst hu
      rw [WakeEvent.goto_pc_self]
      trivial
    · rw [WakeEvent.goto_pc_of_ne hu]
      exact (h.reads u).congr (fun _ _ => rfl) rfl fun b timeout _ =>
        WakeEvent.goto_pc_asleep hawake
  · have hstage := h.stage u
    show (((s.clearSpinning t).goto t (.keyedWait timeout)).pc u).stage.Meets (s.alive u)
      (Function.update s.spinning t false u) (place u).isSome
    by_cases hu : u = t
    · subst hu
      rw [hpc, hspinning] at hstage
      rw [WakeEvent.goto_pc_self, Function.update_self]
      exact ⟨hstage.1, rfl, hstage.2.symm⟩
    · rw [WakeEvent.goto_pc_of_ne hu, Function.update_of_ne hu]
      exact hstage

/-! ## Every step -/

theorem afterSet (h : WakeEventInv place s) {after : AfterSet} (hpc : s.pc t = .setNext after none) :
    WakeEventInv place (s.afterSet t after) := by
  have hawake : (s.pc t).stage ≠ .asleep := by
    rw [hpc]
    exact after.stage_ne_asleep
  have hremaining : (s.pc t).remaining = none := by rw [hpc, WakePc.remaining]
  cases after with
  | idle => exact h.move hremaining.symm hawake trivial (by rw [hpc]; rfl)
  | queued => exact h.move hremaining.symm hawake trivial (by rw [hpc]; rfl)
  | cancel => exact h.move hremaining.symm hawake trivial (by rw [hpc]; rfl)

theorem queueNext (h : WakeEventInv place s) {value : Option τ} (hpc : s.pc t = .queueNext value) :
    WakeEventInv place
      ({ s with next := Function.update s.next t value }.goto t (.queueExchange value)) := by
  have hstage := h.stage t
  rw [hpc] at hstage
  obtain ⟨halive, hspinning, hlisted⟩ := hstage
  have hfill := @fill _ _ s place t (.queueExchange value) h (by simpa using hlisted)
    (by rw [hpc]; rfl) (by simp [hpc, WakePc.stage]) rfl value (s.alive t) (s.spinning t)
    (fun _ heq => WakePc.queueExchange.inj heq) ⟨halive, hspinning, rfl⟩
  rw [Function.update_eq_self, Function.update_eq_self] at hfill
  exact hfill

theorem alive_of_awake (h : WakeEventInv place s) (hstage : (s.pc t).stage = .awake) :
    s.alive t = true := by
  have hmeets := h.stage t
  rw [hstage] at hmeets
  exact hmeets.1

theorem advance (h : WakeEventInv place s) (t : τ) : ∃ place, WakeEventInv place (s.advance t) := by
  rw [WakeEvent.advance.eq_def]
  split
  · exact ⟨place, h⟩
  · next hpc =>
      exact ⟨place, h.move (by rw [hpc]; rfl) (by simp [hpc, WakePc.stage]) trivial
        (by rw [hpc]; rfl)⟩
  · next value hpc =>
      have hstage := h.stage t
      rw [hpc] at hstage
      rw [WakeEvent.touch_eq hstage.1]
      exact ⟨place, h.queueNext hpc⟩
  · next value hpc =>
      split
      · next hvalue => exact ⟨_, h.push (hvalue ▸ hpc)⟩
      · exact ⟨place, h.move (by rw [hpc]; rfl) (by simp [hpc, WakePc.stage]) trivial
          (by rw [hpc]; rfl)⟩
  · exact ⟨place, h⟩
  · next after hpc => exact ⟨_, h.exchange hpc⟩
  · next after hpc => exact ⟨place, h.afterSet hpc⟩
  · next after b hpc =>
      have hhead : (s.pc t).remaining = some b := by rw [hpc, WakePc.remaining]
      have halive := h.alive_of_place (b := b) (by rw [h.place_of_remaining hhead]; rfl)
      have hawake : (s.pc t).stage ≠ .asleep := by
        rw [hpc]
        exact after.stage_ne_asleep
      rw [WakeEvent.touch_eq halive]
      exact ⟨place, h.move hhead.symm hawake rfl (by rw [hpc]; rfl)⟩
  · next after b next hpc =>
      have hhead : (s.pc t).remaining = some b := by rw [hpc, WakePc.remaining]
      have halive := h.alive_of_place (b := b) (by rw [h.place_of_remaining hhead]; rfl)
      rw [WakeEvent.touch_eq halive]
      split
      · next hspinning => exact ⟨_, h.unblock hpc hspinning⟩
      · next hspinning => exact ⟨place, h.release hpc (by simpa using hspinning)⟩
  · exact ⟨place, h⟩
  · next hpc =>
      have hstage : (s.pc t).stage = .awake := by rw [hpc, WakePc.stage]
      rw [WakeEvent.touch_eq (h.alive_of_awake hstage)]
      split
      · exact ⟨place, h.move (by rw [hpc]; rfl) (by simp [hstage]) trivial (by rw [hpc]; rfl)⟩
      · next hspinning =>
          exact ⟨place, h.leave hstage (by rw [hpc]; rfl) (by simpa using hspinning)⟩
  · next timeout hpc =>
      have hstage : (s.pc t).stage = .awake := by rw [hpc, WakePc.stage]
      rw [WakeEvent.touch_eq (h.alive_of_awake hstage)]
      split
      · exact ⟨place, h⟩
      · next hspinning =>
          exact ⟨place, h.leave hstage (by rw [hpc]; rfl) (by simpa using hspinning)⟩
  · next timeout hpc =>
      have hstage : (s.pc t).stage = .awake := by rw [hpc, WakePc.stage]
      rw [WakeEvent.touch_eq (h.alive_of_awake hstage)]
      split
      · next hspinning => exact ⟨place, h.sleep hpc hspinning⟩
      · next hspinning =>
          exact ⟨place, h.leave hstage (by rw [hpc]; rfl) (by simpa using hspinning)⟩
  · exact ⟨place, h⟩

theorem step (h : WakeEventInv place s) (hstep : WakeEventStep False s s') :
    ∃ place, WakeEventInv place s' := by
  -- What a thread does to call a function leaves its list and its block as they are.
  have hcall : ∀ {t pc}, pc.remaining = (s.pc t).remaining → (s.pc t).stage ≠ .asleep →
      pc.Reads s t → pc.stage = (s.pc t).stage → ∃ place, WakeEventInv place (s.goto t pc) :=
    fun hremaining hawake hreads hstage => ⟨place, h.move hremaining hawake hreads hstage⟩
  cases hstep with
  | advance t => exact h.advance t
  | queue t hpc => exact ⟨place, h.callQueue hpc⟩
  | set t hpc =>
      exact hcall (by rw [hpc]; rfl) (by simp [hpc, WakePc.stage]) trivial (by rw [hpc]; rfl)
  | setQueued t hpc =>
      exact hcall (by rw [hpc]; rfl) (by simp [hpc, WakePc.stage]) trivial (by rw [hpc]; rfl)
  | cancel t hpc =>
      exact hcall (by rw [hpc]; rfl) (by simp [hpc, WakePc.stage]) trivial (by rw [hpc]; rfl)
  | wait t spin timeout hpc =>
      cases spin with
      | false =>
          exact hcall (by rw [hpc]; rfl) (by simp [hpc, WakePc.stage]) trivial (by rw [hpc]; rfl)
      | true =>
          exact hcall (by rw [hpc]; rfl) (by simp [hpc, WakePc.stage]) trivial (by rw [hpc]; rfl)
  | stopSpinning t timeout hpc =>
      exact hcall (by rw [hpc]; rfl) (by simp [hpc, WakePc.stage]) trivial (by rw [hpc]; rfl)
  | rendezvous u after b next timeout hrelease hwait => exact ⟨_, h.rendezvous hrelease hwait⟩
  | timeout t hpc hmay => exact hmay.elim

end WakeEventInv

theorem wakeEventInv_start :
    WakeEventInv (fun _ => none) (WakeEvent.phInitializeWakeEvent : WakeEvent τ) where
  lists := by
    have hheads : (WakeEvent.phInitializeWakeEvent : WakeEvent τ).heads = fun _ => none := by
      funext r
      cases r <;> rfl
    rw [hheads]
    exact lists_empty
  reads _ := trivial
  stage _ := ⟨rfl, rfl⟩
  counts _ := rfl
  strayed := rfl

/-! ## Runs -/

/-- A block is on the list of the event, or on that of a thread that sets it. -/
def WakeEvent.Queued (s : WakeEvent τ) (b : τ) : Prop := ∃ r, On s.next (s.heads r) b

/-- A block that is queued is in use, and will be unblocked once more; the others were unblocked
as often as they were queued. Whoever releases a block has its owner waiting for it, and an owner
that sleeps has its block queued. -/
structure WakeEventSafe (s : WakeEvent τ) : Prop where
  strayed : s.strayed = false
  queued : ∀ b, s.Queued b → s.alive b = true ∧ s.pushed b = s.unblocked b + 1
  unblocked : ∀ b, ¬ s.Queued b → s.pushed b = s.unblocked b
  left : ∀ b, s.alive b = false → s.pushed b = s.unblocked b
  released : ∀ u after b next, s.pc u = .setRelease after b next →
    ∃ timeout, s.pc b = .keyedWait timeout
  asleep : ∀ b timeout, s.pc b = .keyedWait timeout → s.Queued b

variable {s : WakeEvent τ}

theorem WakeEventInv.queued_iff {place : τ → Option (Option τ)} (h : WakeEventInv place s) (b : τ) :
    s.Queued b ↔ (place b).isSome = true := by
  rw [Option.isSome_iff_exists]
  exact exists_congr fun r => h.lists.on_iff

theorem WakeEventInv.safe {place : τ → Option (Option τ)} (h : WakeEventInv place s) :
    WakeEventSafe s := by
  have hqueued : ∀ b, s.Queued b → s.alive b = true ∧ s.pushed b = s.unblocked b + 1 := by
    intro b hb
    have hlisted := (h.queued_iff b).mp hb
    refine ⟨h.alive_of_place hlisted, ?_⟩
    rw [h.counts b, hlisted]
    rfl
  have hunblocked : ∀ b, ¬ s.Queued b → s.pushed b = s.unblocked b := by
    intro b hb
    rw [h.queued_iff b, Bool.not_eq_true] at hb
    rw [h.counts b, hb]
    rfl
  refine ⟨h.strayed, hqueued, hunblocked, fun b halive => hunblocked b fun hb => ?_, ?_, ?_⟩
  · rw [(hqueued b hb).1] at halive
    cases halive
  · intro u after b next hpc
    have hreads := h.reads u
    rw [hpc] at hreads
    exact hreads.2
  · intro b timeout hpc
    have hstage := h.stage b
    rw [hpc] at hstage
    exact (h.queued_iff b).mpr hstage.2.2

/-- In every run in which no wait times out, no block is touched that its owner has left, and every
block is unblocked once for each time that it was queued. -/
theorem phfSetWakeEvent_safe
    (hrun : Relation.ReflTransGen (WakeEventStep False) WakeEvent.phInitializeWakeEvent s) :
    WakeEventSafe s := by
  have h : ∃ place, WakeEventInv place s := by
    induction hrun with
    | refl => exact ⟨_, wakeEventInv_start⟩
    | tail _ hstep ih =>
        obtain ⟨place, h⟩ := ih
        exact h.step hstep
  obtain ⟨place, h⟩ := h
  exact h.safe

/-! ## A wait that is woken, and one that times out -/

namespace WakeEvent

/-- The first thread has queued its block and sleeps. -/
def oneAsleep : WakeEvent Bool :=
  ((advance · true)^[1] (((advance · true)^[3] (phInitializeWakeEvent.callQueue true)).callWait true
    false true))

def listTaken : WakeEvent Bool := (advance · false)^[1] (oneAsleep.goto false (.setExchange .idle))

theorem oneAsleep_run (mayTimeOut : Prop) :
    Relation.ReflTransGen (WakeEventStep mayTimeOut) phInitializeWakeEvent oneAsleep := by
  have hqueue : WakeEventStep mayTimeOut phInitializeWakeEvent
      (phInitializeWakeEvent.callQueue true) := .queue true rfl
  have hwait : WakeEventStep mayTimeOut _ (((advance · true)^[3]
      (phInitializeWakeEvent.callQueue true)).callWait true false true) :=
    .wait true false true (by decide)
  exact .head hqueue ((Runs.iterate_run (fun s => .advance true) 3 _).trans
    (.head hwait (Runs.iterate_run (fun s => .advance true) 1 _)))

theorem listTaken_run (mayTimeOut : Prop) :
    Relation.ReflTransGen (WakeEventStep mayTimeOut) phInitializeWakeEvent listTaken := by
  have hset : WakeEventStep mayTimeOut oneAsleep (oneAsleep.goto false (.setExchange .idle)) :=
    .set false (by decide)
  exact (oneAsleep_run mayTimeOut).trans
    (.head hset (Runs.iterate_run (fun s => .advance false) 1 _))

end WakeEvent

open WakeEvent

theorem phfSetWakeEvent_safe_woken : ∃ s : WakeEvent Bool,
    s.unblocked true = 1 ∧ s.pc true = .idle ∧ WakeEventSafe s := by
  have hrelease : Relation.ReflTransGen (WakeEventStep False) phInitializeWakeEvent
      ((advance · false)^[2] listTaken) :=
    (listTaken_run False).trans (Runs.iterate_run (fun s => .advance false) 2 _)
  exact ⟨((advance · false)^[2] listTaken).rendezvous false .idle true none, by decide,
    by decide, phfSetWakeEvent_safe (hrelease.tail
      (.rendezvous false .idle true none true (by decide) (by decide)))⟩

/-- The wait of the first thread times out after the second one has taken the list. It leaves, and
then the second thread reads its block. -/
theorem phfSetWakeEvent_strays : ∃ s : WakeEvent Bool,
    Relation.ReflTransGen (WakeEventStep True) phInitializeWakeEvent s ∧ s.pc true = .idle ∧
      s.strayed = true := by
  have htimeout : WakeEventStep True listTaken (listTaken.goto true (.setExchange .cancel)) :=
    .timeout true (by decide) trivial
  refine ⟨(advance · false)^[1] ((advance · true)^[3]
    (listTaken.goto true (.setExchange .cancel))), ?_, by decide, by decide⟩
  exact (listTaken_run True).trans (.head htimeout
    ((Runs.iterate_run (fun s => .advance true) 3 _).trans
      (Runs.iterate_run (fun s => .advance false) 1 _)))

end SystemInformer.PhLib
