import SystemInformer.PhLib.WorkQueue
import SystemInformer.Lib.Census
import SystemInformer.Lib.Runs

/-!
# Work queues keep a worker, and dispose of every item once

A caller that leaves without creating a worker has seen that there is one, and a caller that
is still inside will see it. So items are only left without a worker when the last worker gives
up while they are there and no caller is inside. It may: a worker whose wait has timed out is
still counted when the caller compares, and it does not look at the queue again.

Items leave the queue at its head, to a worker or to the thread that deletes the queue, which
drains it when the rundown protection has no references left. A worker keeps its reference
until it has destroyed its item.
-/

set_option linter.unusedSectionVars false

namespace SystemInformer.PhLib

def WorkerPc.alive : WorkerPc → Bool
  | .release => false
  | .exited => false
  | _ => true

section

variable {κ : Type} [DecidableEq κ] {minimumThreads maximumThreads : ULong}
  {s s' : WorkQueueState κ}

/-- The queue is not being deleted. -/
structure WorkQueueInv (maximumThreads : ULong) (s : WorkQueueState κ) : Prop where
  served : s.queueListHead ≠ [] → (∀ c, s.caller c = .idle) → 0 < s.currentThreads.toNat
  busyCount : s.busyCount.toNat = s.busy
  currentThreads : s.currentThreads.toNat = s.workers.countP WorkerPc.alive
  limit : s.currentThreads.toNat ≤ maximumThreads.toNat
  notTerminating : s.terminating = false
  notRundown : s.rundownProtect.active = false

variable {i : Nat}

theorem WorkQueueInv.move {old pc : WorkerPc} (h : WorkQueueInv maximumThreads s)
    (hold : s.workers[i]? = some old) (hworkers : s'.workers = s.workers.set i pc)
    (hcaller : s'.caller = s.caller) (hterminating : s'.terminating = s.terminating)
    (hactive : s'.rundownProtect.active = s.rundownProtect.active)
    (hbusy : s'.busyCount.toNat + s.queueListHead.length + old.executes.toNat =
      s.busyCount.toNat + s'.queueListHead.length + pc.executes.toNat)
    (hthreads : s'.currentThreads.toNat + old.alive.toNat =
      s.currentThreads.toNat + pc.alive.toNat)
    (hlimit : s'.currentThreads.toNat ≤ s.currentThreads.toNat)
    (hserved : s'.queueListHead ≠ [] → (∀ c, s.caller c = .idle) → 0 < s'.currentThreads.toNat) :
    WorkQueueInv maximumThreads s' := by
  have halive := Census.countP_set (p := WorkerPc.alive) hold pc
  have hexecutes := Census.countP_set (p := WorkerPc.executes) hold pc
  have hcount := h.busyCount
  have hcurrent := h.currentThreads
  refine ⟨fun hqueue hidle => hserved hqueue (hcaller ▸ hidle), ?_, ?_, hlimit.trans h.limit,
    hterminating.trans h.notTerminating, hactive.trans h.notRundown⟩
  · rw [WorkQueueState.busy] at hcount ⊢
    rw [hworkers]
    omega
  · rw [hworkers]
    omega

theorem WorkQueueInv.workerTo {old pc : WorkerPc} (h : WorkQueueInv maximumThreads s)
    (hold : s.workers[i]? = some old) (hworkers : s'.workers = s.workers.set i pc)
    (hcaller : s'.caller = s.caller) (hterminating : s'.terminating = s.terminating)
    (hactive : s'.rundownProtect.active = s.rundownProtect.active)
    (hqueue : s'.queueListHead = s.queueListHead) (hbusy : s'.busyCount = s.busyCount)
    (hcurrent : s'.currentThreads = s.currentThreads) (hexecutes : pc.executes = old.executes)
    (halive : pc.alive = old.alive) : WorkQueueInv maximumThreads s' := by
  refine h.move hold hworkers hcaller hterminating hactive ?_ ?_ ?_ ?_
  · rw [hqueue, hbusy, hexecutes]
  · rw [hcurrent, halive]
  · rw [hcurrent]
  · rw [hqueue, hcurrent]
    exact h.served

/-- A worker gives up only while another is there, or nothing waits, or a caller is inside. -/
def WorkQueueState.Sound (minimumThreads : ULong) (s : WorkQueueState κ) (i : Nat) : Prop :=
  s.workers[i]? = some .giveUp → minimumThreads < s.currentThreads → s.currentThreads = 1 →
    s.queueListHead = [] ∨ ∃ c, s.caller c ≠ .idle

/-- `BusyCount` has room for one more item. -/
def BusyCountFits (busy : Nat) : Prop := busy + 1 < 2 ^ 32

theorem countP_pos {p : WorkerPc → Bool} {l : List WorkerPc} {pc : WorkerPc}
    (h : l[i]? = some pc) (hpc : p pc = true) : 0 < l.countP p :=
  List.countP_pos_iff.mpr ⟨pc, List.mem_of_getElem? h, hpc⟩

theorem toNat_sub_one {x : ULong} (h : 0 < x.toNat) : (x - 1).toNat = x.toNat - 1 := by
  rw [BitVec.toNat_sub]
  show (2 ^ 32 - 1 + x.toNat) % 2 ^ 32 = x.toNat - 1
  have hlt := x.isLt
  omega

variable {item : WorkQueueItem}

theorem WorkQueueInv.dequeue (h : WorkQueueInv maximumThreads s)
    (hold : s.workers[i]? = some .dequeue) {items : List WorkQueueItem}
    (hqueue : s.queueListHead = item :: items) :
    WorkQueueInv maximumThreads
      ({ s with queueListHead := items, taken := s.taken ++ [item] }.workerTo i (.execute item)) := by
  refine h.move hold rfl rfl rfl rfl ?_ rfl (Nat.le_refl _) fun _ hidle => ?_
  · rw [hqueue]
    show s.busyCount.toNat + (items.length + 1) + 0 = s.busyCount.toNat + items.length + 1
    omega
  · refine h.served ?_ hidle
    rw [hqueue]
    exact List.cons_ne_nil _ _

theorem WorkQueueInv.finish (h : WorkQueueInv maximumThreads s)
    (hold : s.workers[i]? = some (.finish item)) :
    WorkQueueInv maximumThreads
      ({ s with busyCount := s.busyCount - 1 }.workerTo i (.destroy item)) := by
  have hpos : 0 < s.busyCount.toNat := by
    rw [h.busyCount, WorkQueueState.busy]
    exact Nat.add_pos_right _ (countP_pos hold rfl)
  refine h.move hold rfl rfl rfl rfl ?_ rfl (Nat.le_refl _) h.served
  show (s.busyCount - 1).toNat + s.queueListHead.length + 1 =
    s.busyCount.toNat + s.queueListHead.length + 0
  rw [toNat_sub_one hpos]
  omega

theorem WorkQueueInv.terminate {old : WorkerPc} (h : WorkQueueInv maximumThreads s)
    (hold : s.workers[i]? = some old) (halive : old.alive = true) (hexecutes : old.executes = false)
    (hsound : s.currentThreads.toNat = 1 → s.queueListHead = [] ∨ ∃ c, s.caller c ≠ .idle) :
    WorkQueueInv maximumThreads
      ({ s with currentThreads := s.currentThreads - 1 }.workerTo i .release) := by
  have hpos : 0 < s.currentThreads.toNat := by
    rw [h.currentThreads]
    exact countP_pos hold halive
  have hsub := toNat_sub_one hpos
  refine h.move hold rfl rfl rfl rfl ?_ ?_ ?_ fun hqueue hidle => ?_
  · rw [hexecutes]
    rfl
  · rw [halive]
    show (s.currentThreads - 1).toNat + 1 = s.currentThreads.toNat + 0
    omega
  · show (s.currentThreads - 1).toNat ≤ s.currentThreads.toNat
    omega
  · show 0 < (s.currentThreads - 1).toNat
    have hmany : s.currentThreads.toNat ≠ 1 := fun hone => by
      rcases hsound hone with hempty | ⟨c, hc⟩
      · exact hqueue hempty
      · exact hc (hidle c)
    omega

theorem WorkQueueInv.worker (h : WorkQueueInv maximumThreads s)
    (hsound : s.Sound minimumThreads i) : WorkQueueInv maximumThreads
      (s.phpWorkQueueThreadStart minimumThreads maximumThreads i) := by
  have hlimit := h.limit
  rw [WorkQueueState.phpWorkQueueThreadStart]
  split
  · exact h
  · next hpc =>
      split
      · exact h.workerTo hpc rfl rfl rfl rfl rfl rfl rfl rfl rfl
      · exact h.workerTo hpc rfl rfl rfl rfl rfl rfl rfl rfl rfl
  · next hpc =>
      split
      · next hover => exact absurd (BitVec.lt_def.mp hover.1) (Nat.not_lt.mpr hlimit)
      · exact h.workerTo hpc rfl rfl rfl rfl rfl rfl rfl rfl rfl
  · next hpc => exact h.workerTo hpc rfl rfl rfl rfl rfl rfl rfl rfl rfl
  · next hpc =>
      split
      · exact h.workerTo hpc rfl rfl rfl rfl rfl rfl rfl rfl rfl
      · exact h.workerTo hpc rfl rfl rfl rfl rfl rfl rfl rfl rfl
  · exact h
  · next hpc =>
      split
      · exact h.workerTo hpc rfl rfl rfl rfl rfl rfl rfl rfl rfl
      · exact h.workerTo hpc rfl rfl rfl rfl rfl rfl rfl rfl rfl
  · next hpc =>
      split
      · exact h.workerTo hpc rfl rfl rfl rfl rfl rfl rfl rfl rfl
      · next hqueue => exact h.dequeue hpc hqueue
  · next hpc => exact h.workerTo hpc rfl rfl rfl rfl rfl rfl rfl rfl rfl
  · next hpc => exact h.finish hpc
  · next hpc => exact h.workerTo hpc rfl rfl rfl rfl rfl rfl rfl rfl rfl
  · next hpc =>
      split
      · next hgive =>
          rw [h.notTerminating] at hgive
          refine h.terminate hpc rfl rfl fun hone => ?_
          exact hsound hpc (hgive.resolve_left Bool.false_ne_true) (BitVec.eq_of_toNat_eq hone)
      · exact h.workerTo hpc rfl rfl rfl rfl rfl rfl rfl rfl rfl
  · next hpc => exact h.workerTo hpc rfl rfl rfl rfl rfl rfl rfl rfl rfl
  · exact h

/-! ## The callers -/

theorem WorkQueueInv.callerTo {c : κ} {pc : QueuePc} (h : WorkQueueInv maximumThreads s)
    (hworkers : s'.workers = s.workers) (hcaller : s'.caller = Function.update s.caller c pc)
    (hterminating : s'.terminating = s.terminating)
    (hactive : s'.rundownProtect.active = s.rundownProtect.active)
    (hqueue : s'.queueListHead = s.queueListHead) (hbusy : s'.busyCount = s.busyCount)
    (hcurrent : s'.currentThreads = s.currentThreads)
    (hleave : pc = .idle → s.caller c ≠ .idle → 0 < s.currentThreads.toNat) :
    WorkQueueInv maximumThreads s' := by
  refine ⟨fun hne hidle => ?_, ?_, ?_, hcurrent ▸ h.limit, hterminating.trans h.notTerminating,
    hactive.trans h.notRundown⟩
  · rw [hcaller] at hidle
    rw [hcurrent]
    rw [hqueue] at hne
    have hpc : pc = .idle := by
      have hself := hidle c
      rwa [Function.update_self] at hself
    by_cases hold : s.caller c = .idle
    · refine h.served hne fun u => ?_
      by_cases hu : u = c
      · rw [hu, hold]
      · have hother := hidle u
        rwa [Function.update_of_ne hu] at hother
    · exact hleave hpc hold
  · rw [WorkQueueState.busy, hqueue, hbusy, hworkers]
    exact h.busyCount
  · rw [hcurrent, hworkers]
    exact h.currentThreads

theorem toNat_add_one {x : ULong} {n : Nat} (h : x.toNat < n) (hn : n < 2 ^ 32) :
    (x + 1).toNat = x.toNat + 1 := by
  rw [BitVec.toNat_add]
  exact Nat.mod_eq_of_lt (Nat.lt_of_le_of_lt h hn)

theorem WorkQueueInv.create {c : κ} (h : WorkQueueInv maximumThreads s)
    (hroom : s.currentThreads < maximumThreads) :
    WorkQueueInv maximumThreads (s.phpCreateWorkQueueThread.callerTo c .idle) := by
  have hadd := toNat_add_one (BitVec.lt_def.mp hroom) maximumThreads.isLt
  have hcurrent := h.currentThreads
  have hbusy := h.busyCount
  have hlt := BitVec.lt_def.mp hroom
  rw [WorkQueueState.phpCreateWorkQueueThread, if_neg (Bool.eq_false_iff.mp h.notRundown)]
  refine ⟨fun _ _ => ?_, ?_, ?_, ?_, h.notTerminating, h.notRundown⟩
  · show 0 < (s.currentThreads + 1).toNat
    omega
  · show s.busyCount.toNat = s.queueListHead.length +
      (s.workers ++ [WorkerPc.checkLimit]).countP WorkerPc.executes
    rw [List.countP_append]
    exact hbusy
  · show (s.currentThreads + 1).toNat = (s.workers ++ [WorkerPc.checkLimit]).countP WorkerPc.alive
    rw [List.countP_append, hadd, hcurrent]
    rfl
  · show (s.currentThreads + 1).toNat ≤ maximumThreads.toNat
    omega

theorem WorkQueueInv.caller {c : κ} (h : WorkQueueInv maximumThreads s)
    (hmaximum : 1 ≤ maximumThreads) :
    WorkQueueInv maximumThreads (s.phQueueItemWorkQueueEx maximumThreads c) := by
  have hpos : 1 ≤ maximumThreads.toNat := BitVec.le_def.mp hmaximum
  rw [WorkQueueState.phQueueItemWorkQueueEx]
  split
  · exact h
  · exact h.callerTo rfl rfl rfl rfl rfl rfl rfl fun hno => (by cases hno)
  · exact h.callerTo rfl rfl rfl rfl rfl rfl rfl fun hno => (by cases hno)
  · exact h.callerTo rfl rfl rfl rfl rfl rfl rfl fun hno => (by cases hno)
  · next busyCount hpc =>
      refine h.callerTo rfl rfl rfl rfl rfl rfl rfl fun hleave _ => ?_
      split at hleave
      · cases hleave
      · next hmany =>
          -- more workers than items were seen, so there is one
          rw [BitVec.le_def] at hmany
          omega
  · next hpc =>
      refine h.callerTo rfl rfl rfl rfl rfl rfl rfl fun hleave _ => ?_
      split at hleave
      · cases hleave
      · next hfull =>
          rw [BitVec.lt_def] at hfull
          omega
  · next hpc =>
      split
      · next hroom => exact h.create hroom
      · next hfull =>
          refine h.callerTo rfl rfl rfl rfl rfl rfl rfl fun _ _ => ?_
          rw [BitVec.lt_def] at hfull
          omega

theorem WorkQueueInv.insert {c : κ} {deleteFunction : Bool} (h : WorkQueueInv maximumThreads s)
    (hroom : s.busy + 1 < 2 ^ 32) :
    WorkQueueInv maximumThreads (s.insertTail c deleteFunction) := by
  have hbusy := h.busyCount
  refine ⟨fun _ hidle => ?_, ?_, h.currentThreads, h.limit, h.notTerminating, h.notRundown⟩
  · have hself : Function.update s.caller c .getSemaphore c = .idle := hidle c
    rw [Function.update_self] at hself
    cases hself
  · show (s.busyCount + 1).toNat = (s.queueListHead ++ [_]).length + s.workers.countP _
    rw [WorkQueueState.busy] at hbusy hroom
    rw [toNat_add_one (n := 2 ^ 32 - 1) (by omega) (by decide), List.length_append, hbusy]
    show s.queueListHead.length + s.workers.countP _ + 1 =
      s.queueListHead.length + 1 + s.workers.countP _
    omega

/-! ## Runs -/

theorem WorkQueueInv.step (h : WorkQueueInv maximumThreads s) (hmaximum : 1 ≤ maximumThreads)
    (hstep : WorkQueueStep minimumThreads maximumThreads False
      (WorkQueueState.Sound minimumThreads) BusyCountFits s s') :
    WorkQueueInv maximumThreads s' := by
  cases hstep with
  | insert c deleteFunction hidle hdeleter hroom => exact h.insert hroom
  | caller c => exact h.caller hmaximum
  | worker i hsound => exact h.worker hsound
  | wake i count hwait hcount => exact h.workerTo hwait rfl rfl rfl rfl rfl rfl rfl rfl rfl
  | timeout i hwait hzero => exact h.workerTo hwait rfl rfl rfl rfl rfl rfl rfl rfl rfl
  | delete hmay => exact hmay.elim

def WorkerPc.calls (item : WorkQueueItem) : WorkerPc → Bool
  | .execute item' => item' = item
  | _ => false

def WorkerPc.has (item : WorkQueueItem) : WorkerPc → Bool
  | .execute item' => item' = item
  | .finish item' => item' = item
  | .destroy item' => item' = item
  | _ => false

def WorkerPc.runs : WorkerPc → Bool
  | .exited => false
  | _ => true

/-- The rundown protection has no references left. -/
def DeletePc.Drains : DeletePc → Prop
  | .drain _ => True
  | .returned => True
  | _ => False

def WorkQueueState.remaining (s : WorkQueueState κ) : List WorkQueueItem :=
  match s.deleter with
  | .drain items => items
  | .returned => []
  | _ => s.queueListHead

/-- Items leave the queue in order, no function is called twice, and when the queue has been
deleted no worker runs and every item has been disposed of once. -/
structure WorkQueueDisposes (s : WorkQueueState κ) : Prop where
  distinct : s.queued.Nodup
  ordered : s.taken <+: s.queued
  called : s.called.Nodup
  exited : s.deleter = .returned → ∀ pc ∈ s.workers, pc = .exited
  disposed : s.deleter = .returned → ∀ item ∈ s.queued, s.freed.count item = 1 ∧
    s.deleted.count item = if item.deleteFunction then 1 else 0

structure DisposalInv (s : WorkQueueState κ) : Prop where
  remaining : s.taken ++ s.remaining = s.queued
  ids : ∀ item ∈ s.queued, item.id < s.queued.length
  distinct : s.queued.Nodup
  called : ∀ item, s.called.count item + s.workers.countP (WorkerPc.calls item) ≤
    s.taken.count item
  freed : ∀ item, s.freed.count item + s.workers.countP (WorkerPc.has item) = s.taken.count item
  deleted : s.deleted = s.freed.filter WorkQueueItem.deleteFunction
  references : s.rundownProtect.references = s.workers.countP WorkerPc.runs
  waits : s.deleter = .waitForRundown → s.rundownProtect.active = true
  drains : s.deleter.Drains →
    s.rundownProtect.active = true ∧ s.rundownProtect.references = 0

theorem DisposalInv.disposes (h : DisposalInv s) : WorkQueueDisposes s := by
  have hprefix : s.taken <+: s.queued := ⟨_, h.remaining⟩
  have htaken : s.taken.Nodup := h.distinct.sublist hprefix.sublist
  have hexited : s.deleter = .returned → ∀ pc ∈ s.workers, pc = .exited := by
    intro hreturned pc hmem
    have hzero := (h.drains (hreturned ▸ trivial)).2
    rw [h.references] at hzero
    have hruns := List.countP_eq_zero.mp hzero pc hmem
    cases pc with
    | exited => rfl
    | _ => exact absurd rfl hruns
  refine ⟨h.distinct, hprefix, List.nodup_iff_count_le_one.mpr fun item => ?_, hexited,
    fun hreturned item hitem => ?_⟩
  · have hcalled := h.called item
    have hone := List.nodup_iff_count_le_one.mp htaken item
    omega
  · have hnone : s.workers.countP (WorkerPc.has item) = 0 :=
      List.countP_eq_zero.mpr fun pc hmem => by
        rw [hexited hreturned pc hmem]
        exact Bool.false_ne_true
    have hall : s.taken = s.queued := by
      have hremaining := h.remaining
      rw [WorkQueueState.remaining, hreturned] at hremaining
      rw [← hremaining, List.append_nil]
    have hfreed : s.freed.count item = 1 := by
      have hfreed := h.freed item
      rw [hnone, hall, List.count_eq_one_of_mem h.distinct hitem] at hfreed
      exact hfreed
    refine ⟨hfreed, ?_⟩
    rw [h.deleted]
    cases hdelete : item.deleteFunction with
    | true => exact (List.count_filter hdelete).trans hfreed
    | false =>
        refine List.count_eq_zero.mpr fun hmem => ?_
        rw [(List.mem_filter.mp hmem).2] at hdelete
        cases hdelete

theorem WorkQueueState.deleted_destroy (item : WorkQueueItem)
    (h : s.deleted = s.freed.filter WorkQueueItem.deleteFunction) :
    (s.phpDestroyWorkQueueItem item).deleted =
      (s.phpDestroyWorkQueueItem item).freed.filter WorkQueueItem.deleteFunction := by
  show (if item.deleteFunction then item :: s.deleted else s.deleted) =
    (item :: s.freed).filter WorkQueueItem.deleteFunction
  rw [List.filter_cons, h]

theorem DisposalInv.move {old pc : WorkerPc} (h : DisposalInv s)
    (hold : s.workers[i]? = some old) (hruns : old.runs = true)
    (hworkers : s'.workers = s.workers.set i pc) (hqueued : s'.queued = s.queued)
    (hdeleter : s'.deleter = s.deleter)
    (hactive : s'.rundownProtect.active = s.rundownProtect.active)
    (hremaining : s'.taken ++ s'.remaining = s.taken ++ s.remaining)
    (hcalled : ∀ item, s'.called.count item + (pc.calls item).toNat + s.taken.count item ≤
      s.called.count item + (old.calls item).toNat + s'.taken.count item)
    (hfreed : ∀ item, s'.freed.count item + (pc.has item).toNat + s.taken.count item =
      s.freed.count item + (old.has item).toNat + s'.taken.count item)
    (hdeleted : s'.deleted = s'.freed.filter WorkQueueItem.deleteFunction)
    (hreferences : s'.rundownProtect.references + 1 =
      s.rundownProtect.references + pc.runs.toNat) : DisposalInv s' := by
  have hpos : 0 < s.rundownProtect.references := by
    rw [h.references]
    exact countP_pos hold hruns
  refine ⟨by rw [hqueued, hremaining, h.remaining], hqueued ▸ h.ids, hqueued ▸ h.distinct,
    fun item => ?_, fun item => ?_, hdeleted, ?_, fun hwait => ?_, fun hdrains => ?_⟩
  · have hcount := Census.countP_set (p := WorkerPc.calls item) hold pc
    have hle := h.called item
    have hnew := hcalled item
    rw [hworkers]
    omega
  · have hcount := Census.countP_set (p := WorkerPc.has item) hold pc
    have heq := h.freed item
    have hnew := hfreed item
    rw [hworkers]
    omega
  · have hcount := Census.countP_set (p := WorkerPc.runs) hold pc
    have heq := h.references
    rw [hruns] at hcount
    rw [hworkers]
    show s'.rundownProtect.references = _
    have hone : Bool.toNat true = 1 := rfl
    omega
  · rw [hactive]
    exact h.waits (hdeleter ▸ hwait)
  · have hzero := (h.drains (hdeleter ▸ hdrains)).2
    omega

theorem DisposalInv.workerTo {old pc : WorkerPc} (h : DisposalInv s)
    (hold : s.workers[i]? = some old) (hworkers : s'.workers = s.workers.set i pc)
    (hruns : old.runs = true) (hpc : pc.runs = true)
    (hcalls : ∀ item, pc.calls item = old.calls item) (hhas : ∀ item, pc.has item = old.has item)
    (hqueued : s'.queued = s.queued)
    (hdeleter : s'.deleter = s.deleter) (hrundown : s'.rundownProtect = s.rundownProtect)
    (htaken : s'.taken = s.taken) (hqueue : s'.queueListHead = s.queueListHead)
    (hcalled : s'.called = s.called) (hfreed : s'.freed = s.freed)
    (hdeleted : s'.deleted = s.deleted) : DisposalInv s' := by
  refine h.move hold hruns hworkers hqueued hdeleter (by rw [hrundown]) ?_ (fun item => ?_)
    (fun item => ?_) ?_ ?_
  · rw [htaken, WorkQueueState.remaining, WorkQueueState.remaining, hdeleter, hqueue]
  · rw [hcalled, htaken, hcalls item]
  · rw [hfreed, htaken, hhas item]
  · rw [hdeleted, hfreed]
    exact h.deleted
  · rw [hrundown, hpc]
    rfl

theorem DisposalInv.dequeue {items : List WorkQueueItem}
    (h : DisposalInv s) (hold : s.workers[i]? = some .dequeue)
    (hqueue : s.queueListHead = item :: items) :
    DisposalInv
      ({ s with queueListHead := items, taken := s.taken ++ [item] }.workerTo i (.execute item)) := by
  have hpos : 0 < s.rundownProtect.references := by
    rw [h.references]
    exact countP_pos hold rfl
  have hgrows : ∀ item', (s.taken ++ [item]).count item' =
      s.taken.count item' + (decide (item = item')).toNat := by
    intro item'
    rw [List.count_append, List.count_singleton]
    by_cases hitem : item = item'
    · simp [hitem]
    · simp [hitem]
  refine h.move hold rfl rfl rfl rfl rfl ?_ (fun item' => ?_) (fun item' => ?_) h.deleted rfl
  · rw [WorkQueueState.remaining, WorkQueueState.remaining]
    show (s.taken ++ [item]) ++ (match s.deleter with
      | .drain items => items
      | .returned => []
      | _ => items) = _
    cases hdeleter : s.deleter with
    | drain items => exact absurd (h.drains (hdeleter ▸ trivial)).2 hpos.ne'
    | returned => exact absurd (h.drains (hdeleter ▸ trivial)).2 hpos.ne'
    | _ => simp [hqueue]
  · show s.called.count item' + (decide (item = item')).toNat + s.taken.count item' ≤
      s.called.count item' + 0 + (s.taken ++ [item]).count item'
    rw [hgrows]
    omega
  · show s.freed.count item' + (decide (item = item')).toNat + s.taken.count item' =
      s.freed.count item' + 0 + (s.taken ++ [item]).count item'
    rw [hgrows]
    omega

theorem count_cons_toNat (item item' : WorkQueueItem) (l : List WorkQueueItem) :
    (item :: l).count item' = l.count item' + (decide (item = item')).toNat := by
  rw [List.count_cons]
  by_cases hitem : item = item'
  · simp [hitem]
  · simp [hitem]

theorem DisposalInv.execute (h : DisposalInv s)
    (hold : s.workers[i]? = some (.execute item)) :
    DisposalInv ({ s with called := item :: s.called }.workerTo i (.finish item)) := by
  refine h.move hold rfl rfl rfl rfl rfl rfl (fun item' => ?_) (fun item' => rfl) h.deleted rfl
  show (item :: s.called).count item' + 0 + s.taken.count item' ≤
    s.called.count item' + (decide (item = item')).toNat + s.taken.count item'
  rw [count_cons_toNat]
  omega

theorem DisposalInv.destroy (h : DisposalInv s)
    (hold : s.workers[i]? = some (.destroy item)) :
    DisposalInv ((s.phpDestroyWorkQueueItem item).workerTo i .checkLimit) := by
  refine h.move hold rfl rfl rfl rfl rfl rfl (fun item' => Nat.le_refl _) (fun item' => ?_) ?_ rfl
  · show (item :: s.freed).count item' + 0 + s.taken.count item' =
      s.freed.count item' + (decide (item = item')).toNat + s.taken.count item'
    rw [count_cons_toNat]
    omega
  · exact WorkQueueState.deleted_destroy item h.deleted

theorem DisposalInv.release (h : DisposalInv s)
    (hold : s.workers[i]? = some .release) :
    DisposalInv ({ s with
      rundownProtect :=
        { s.rundownProtect with references := s.rundownProtect.references - 1 } }.workerTo i .exited) := by
  have hpos : 0 < s.rundownProtect.references := by
    rw [h.references]
    exact countP_pos hold rfl
  refine h.move hold rfl rfl rfl rfl rfl rfl (fun _ => Nat.le_refl _) (fun _ => rfl) h.deleted ?_
  show s.rundownProtect.references - 1 + 1 = s.rundownProtect.references + 0
  omega

theorem DisposalInv.worker (h : DisposalInv s) : DisposalInv
    (s.phpWorkQueueThreadStart minimumThreads maximumThreads i) := by
  rw [WorkQueueState.phpWorkQueueThreadStart]
  split
  · exact h
  · next hpc =>
      split
      · exact h.workerTo hpc rfl rfl rfl (fun _ => rfl) (fun _ => rfl) rfl rfl rfl rfl rfl rfl rfl rfl
      · exact h.workerTo hpc rfl rfl rfl (fun _ => rfl) (fun _ => rfl) rfl rfl rfl rfl rfl rfl rfl rfl
  · next hpc =>
      split
      · exact h.workerTo hpc rfl rfl rfl (fun _ => rfl) (fun _ => rfl) rfl rfl rfl rfl rfl rfl rfl rfl
      · exact h.workerTo hpc rfl rfl rfl (fun _ => rfl) (fun _ => rfl) rfl rfl rfl rfl rfl rfl rfl rfl
  · next hpc => exact h.workerTo hpc rfl rfl rfl (fun _ => rfl) (fun _ => rfl) rfl rfl rfl rfl rfl rfl rfl rfl
  · next hpc =>
      split
      · exact h.workerTo hpc rfl rfl rfl (fun _ => rfl) (fun _ => rfl) rfl rfl rfl rfl rfl rfl rfl rfl
      · exact h.workerTo hpc rfl rfl rfl (fun _ => rfl) (fun _ => rfl) rfl rfl rfl rfl rfl rfl rfl rfl
  · exact h
  · next hpc =>
      split
      · exact h.workerTo hpc rfl rfl rfl (fun _ => rfl) (fun _ => rfl) rfl rfl rfl rfl rfl rfl rfl rfl
      · exact h.workerTo hpc rfl rfl rfl (fun _ => rfl) (fun _ => rfl) rfl rfl rfl rfl rfl rfl rfl rfl
  · next hpc =>
      split
      · exact h.workerTo hpc rfl rfl rfl (fun _ => rfl) (fun _ => rfl) rfl rfl rfl rfl rfl rfl rfl rfl
      · next hqueue => exact h.dequeue hpc hqueue
  · next hpc => exact h.execute hpc
  · next hpc => exact h.workerTo hpc rfl rfl rfl (fun _ => rfl) (fun _ => rfl) rfl rfl rfl rfl rfl rfl rfl rfl
  · next hpc => exact h.destroy hpc
  · next hpc =>
      split
      · exact h.workerTo hpc rfl rfl rfl (fun _ => rfl) (fun _ => rfl) rfl rfl rfl rfl rfl rfl rfl rfl
      · exact h.workerTo hpc rfl rfl rfl (fun _ => rfl) (fun _ => rfl) rfl rfl rfl rfl rfl rfl rfl rfl
  · next hpc => exact h.release hpc
  · exact h

theorem DisposalInv.same (h : DisposalInv s) (hworkers : s'.workers = s.workers)
    (hqueued : s'.queued = s.queued) (htaken : s'.taken = s.taken)
    (hremaining : s'.remaining = s.remaining) (hcalled : s'.called = s.called)
    (hfreed : s'.freed = s.freed) (hdeleted : s'.deleted = s.deleted)
    (hreferences : s'.rundownProtect.references = s.rundownProtect.references)
    (hwaits : s'.deleter = .waitForRundown → s'.rundownProtect.active = true)
    (hdrains : s'.deleter.Drains →
      s'.rundownProtect.active = true ∧ s.rundownProtect.references = 0) : DisposalInv s' where
  remaining := by rw [htaken, hremaining, hqueued, h.remaining]
  ids := hqueued ▸ h.ids
  distinct := hqueued ▸ h.distinct
  called := by
    rw [hcalled, hworkers, htaken]
    exact h.called
  freed := by
    rw [hfreed, hworkers, htaken]
    exact h.freed
  deleted := by rw [hdeleted, hfreed, h.deleted]
  references := by rw [hreferences, hworkers, h.references]
  waits := hwaits
  drains := by
    rw [hreferences]
    exact hdrains

theorem DisposalInv.create {c : κ} (h : DisposalInv s) :
    DisposalInv (s.phpCreateWorkQueueThread.callerTo c .idle) := by
  rw [WorkQueueState.phpCreateWorkQueueThread]
  split
  · exact h.same rfl rfl rfl rfl rfl rfl rfl rfl h.waits h.drains
  · next hactive =>
      refine ⟨h.remaining, h.ids, h.distinct, fun item => ?_, fun item => ?_, h.deleted, ?_, h.waits,
        fun hdrains => absurd (h.drains hdrains).1 hactive⟩
      · show _ + (s.workers ++ [WorkerPc.checkLimit]).countP _ ≤ _
        rw [List.countP_append]
        exact h.called item
      · show _ + (s.workers ++ [WorkerPc.checkLimit]).countP _ = _
        rw [List.countP_append]
        exact h.freed item
      · show s.rundownProtect.references + 1 = (s.workers ++ [WorkerPc.checkLimit]).countP _
        rw [List.countP_append, h.references]
        rfl

theorem DisposalInv.caller {c : κ} (h : DisposalInv s) :
    DisposalInv (s.phQueueItemWorkQueueEx maximumThreads c) := by
  rw [WorkQueueState.phQueueItemWorkQueueEx]
  split
  · exact h
  · exact h.same rfl rfl rfl rfl rfl rfl rfl rfl h.waits h.drains
  · exact h.same rfl rfl rfl rfl rfl rfl rfl rfl h.waits h.drains
  · exact h.same rfl rfl rfl rfl rfl rfl rfl rfl h.waits h.drains
  · exact h.same rfl rfl rfl rfl rfl rfl rfl rfl h.waits h.drains
  · exact h.same rfl rfl rfl rfl rfl rfl rfl rfl h.waits h.drains
  · split
    · exact h.create
    · exact h.same rfl rfl rfl rfl rfl rfl rfl rfl h.waits h.drains

theorem DisposalInv.insert {c : κ} {deleteFunction : Bool} (h : DisposalInv s)
    (hdeleter : s.deleter = .notCalled) : DisposalInv (s.insertTail c deleteFunction) := by
  have hlength : (s.insertTail c deleteFunction).queued.length = s.queued.length + 1 :=
    List.length_append ..
  refine ⟨?_, fun item hitem => ?_, ?_, h.called, h.freed, h.deleted, h.references, h.waits,
    h.drains⟩
  · have hremaining := h.remaining
    rw [WorkQueueState.remaining, hdeleter] at hremaining
    rw [WorkQueueState.remaining]
    show s.taken ++ (match s.deleter with
      | .drain items => items
      | .returned => []
      | _ => s.queueListHead ++ [(⟨s.queued.length, deleteFunction⟩ : WorkQueueItem)]) = s.queued ++ _
    rw [hdeleter, ← List.append_assoc, hremaining]
  · rw [hlength]
    rcases List.mem_append.mp hitem with hitem | hitem
    · exact Nat.lt_succ_of_lt (h.ids item hitem)
    · rw [List.mem_singleton.mp hitem]
      exact Nat.lt_succ_self _
  · refine List.nodup_append.mpr ⟨h.distinct, List.nodup_singleton _, fun item hitem item' hnew => ?_⟩
    rw [List.mem_singleton.mp hnew]
    rintro rfl
    exact Nat.lt_irrefl _ (h.ids _ hitem)

/-! ## The thread that deletes the queue -/

theorem DisposalInv.drain {items : List WorkQueueItem} (h : DisposalInv s)
    (hdeleter : s.deleter = .drain (item :: items)) : DisposalInv
      { s.phpDestroyWorkQueueItem item with
        taken := s.taken ++ [item], deleter := .drain items } := by
  have hremaining := h.remaining
  rw [WorkQueueState.remaining, hdeleter] at hremaining
  refine ⟨?_, h.ids, h.distinct, fun item' => ?_, fun item' => ?_,
    WorkQueueState.deleted_destroy item h.deleted, h.references, fun hno => (by cases hno),
    fun _ => h.drains (hdeleter ▸ trivial)⟩
  · show (s.taken ++ [item]) ++ items = s.queued
    rw [List.append_assoc]
    exact hremaining
  · show s.called.count item' + s.workers.countP _ ≤ (s.taken ++ [item]).count item'
    rw [List.count_append]
    exact Nat.le_add_right_of_le (h.called item')
  · show (item :: s.freed).count item' + s.workers.countP _ = (s.taken ++ [item]).count item'
    have hfreed := h.freed item'
    rw [count_cons_toNat, List.count_append, count_cons_toNat, List.count_nil]
    omega

theorem DisposalInv.delete (h : DisposalInv s) : DisposalInv s.phDeleteWorkQueue := by
  rw [WorkQueueState.phDeleteWorkQueue]
  split
  · next hdeleter =>
      refine h.same rfl rfl rfl ?_ rfl rfl rfl rfl (fun hno => by cases hno) False.elim
      rw [WorkQueueState.remaining, WorkQueueState.remaining, hdeleter]
  · next hdeleter =>
      refine h.same rfl rfl rfl ?_ rfl rfl rfl rfl (fun hno => by cases hno) False.elim
      rw [WorkQueueState.remaining, WorkQueueState.remaining, hdeleter]
      rfl
  · next hdeleter =>
      refine h.same rfl rfl rfl ?_ rfl rfl rfl rfl (fun _ => rfl) False.elim
      rw [WorkQueueState.remaining, WorkQueueState.remaining, hdeleter]
  · next hdeleter =>
      split
      · next hzero =>
          refine h.same rfl rfl rfl ?_ rfl rfl rfl rfl (fun hno => by cases hno)
            fun _ => ⟨h.waits hdeleter, hzero⟩
          rw [WorkQueueState.remaining, WorkQueueState.remaining, hdeleter]
      · exact h
  · next hdeleter =>
      refine h.same rfl rfl rfl ?_ rfl rfl rfl rfl (fun hno => by cases hno)
        fun _ => h.drains (hdeleter ▸ trivial)
      rw [WorkQueueState.remaining, WorkQueueState.remaining, hdeleter]
  · next hdeleter => exact h.drain hdeleter
  · exact h

theorem disposalInv_start : DisposalInv (WorkQueueState.phInitializeWorkQueue : WorkQueueState κ) where
  remaining := rfl
  ids _ hmem := by cases hmem
  distinct := List.nodup_nil
  called _ := Nat.le_refl _
  freed _ := rfl
  deleted := rfl
  references := rfl
  waits hno := by cases hno
  drains := False.elim

theorem DisposalInv.step {mayDelete : Prop} {allowed : WorkQueueState κ → Nat → Prop}
    {room : Nat → Prop} (h : DisposalInv s)
    (hstep : WorkQueueStep minimumThreads maximumThreads mayDelete allowed room s s') :
    DisposalInv s' := by
  cases hstep with
  | insert c deleteFunction hidle hdeleter hroom => exact h.insert hdeleter
  | caller c => exact h.caller
  | worker i hallowed => exact h.worker
  | wake i count hpc hcount => exact h.workerTo hpc rfl rfl rfl (fun _ => rfl) (fun _ => rfl) rfl rfl rfl rfl rfl rfl rfl rfl
  | timeout i hpc hzero => exact h.workerTo hpc rfl rfl rfl (fun _ => rfl) (fun _ => rfl) rfl rfl rfl rfl rfl rfl rfl rfl
  | delete hmay => exact h.delete

/-- In every run items leave in order, no function is called twice, and deleting the queue
leaves no worker and disposes of every item once. -/
theorem phDeleteWorkQueue_disposes (hrun : Relation.ReflTransGen
    (WorkQueueStep minimumThreads maximumThreads True (fun _ _ => True) (fun _ => True))
    WorkQueueState.phInitializeWorkQueue s) : WorkQueueDisposes s := by
  have h : DisposalInv s := by
    induction hrun with
    | refl => exact disposalInv_start
    | tail _ hstep ih => exact ih.step hstep
  exact h.disposes

/-! ## The semaphore -/

/-- The worker was woken and has not looked at the queue yet. -/
def WorkerPc.looks : WorkerPc → Bool
  | .woken => true
  | .dequeue => true
  | _ => false

/-- The caller has inserted its item and not released the semaphore yet. -/
def QueuePc.owes : QueuePc → Nat
  | .getSemaphore => 1
  | .releaseSemaphore => 1
  | _ => 0

variable [Fintype κ]

/-- There is one signal for every item on the list, or a worker or a caller in its place. -/
structure SignalInv (s : WorkQueueState κ) : Prop where
  balance : s.semaphoreHandle.getD 0 + s.workers.countP WorkerPc.looks +
    Census.total QueuePc.owes s.caller = s.queueListHead.length
  created : ∀ c, s.caller c = .releaseSemaphore → s.semaphoreHandle ≠ none
  few : s.queueListHead.length ≤ 0x7fffffff
  notTerminating : s.terminating = false

theorem SignalInv.move {old pc : WorkerPc} (h : SignalInv s) (hold : s.workers[i]? = some old)
    (hworkers : s'.workers = s.workers.set i pc) (hcaller : s'.caller = s.caller)
    (hhandle : s.semaphoreHandle ≠ none → s'.semaphoreHandle ≠ none)
    (hcount : s'.semaphoreHandle.getD 0 + pc.looks.toNat + s.queueListHead.length =
      s.semaphoreHandle.getD 0 + old.looks.toNat + s'.queueListHead.length)
    (hfew : s'.queueListHead.length ≤ s.queueListHead.length)
    (hterminating : s'.terminating = s.terminating) : SignalInv s' := by
  have hlooks := Census.countP_set (p := WorkerPc.looks) hold pc
  have hbalance := h.balance
  refine ⟨?_, ?_, hfew.trans h.few, hterminating.trans h.notTerminating⟩
  · rw [hworkers, hcaller]
    omega
  · rw [hcaller]
    exact fun c hc => hhandle (h.created c hc)

theorem SignalInv.dequeue (h : SignalInv s) (hpc : s.workers[i]? = some .dequeue) :
    s.queueListHead ≠ [] := by
  intro hnone
  have hlooks := countP_pos hpc (p := WorkerPc.looks) rfl
  have hbalance := h.balance
  rw [hnone, List.length_nil] at hbalance
  omega

theorem SignalInv.worker (h : SignalInv s) :
    SignalInv (s.phpWorkQueueThreadStart minimumThreads maximumThreads i) := by
  unfold WorkQueueState.phpWorkQueueThreadStart
  cases hpc : s.workers[i]? with
  | none => exact h
  | some old =>
      cases old with
      | wait | exited => exact h
      | getSemaphore =>
          exact h.move hpc rfl rfl (fun _ => Option.some_ne_none _) rfl (Nat.le_refl _) rfl
      | woken | checkTerminating =>
          dsimp only
          rw [h.notTerminating]
          exact h.move hpc rfl rfl id rfl (Nat.le_refl _) rfl
      | dequeue =>
          dsimp only
          split
          · next hqueue => exact absurd hqueue (h.dequeue hpc)
          · next item items hqueue =>
            refine h.move hpc rfl rfl id ?_ (hqueue ▸ Nat.le_succ _) rfl
            rw [hqueue]
            show s.semaphoreHandle.getD 0 + 0 + (items.length + 1) =
              s.semaphoreHandle.getD 0 + 1 + items.length
            omega
      | checkLimit | overLimit | giveUp =>
          dsimp only
          split <;> exact h.move hpc rfl rfl id rfl (Nat.le_refl _) rfl
      | _ => exact h.move hpc rfl rfl id rfl (Nat.le_refl _) rfl

theorem SignalInv.callerTo {c : κ} {old pc : QueuePc} (h : SignalInv s) (hold : s.caller c = old)
    (hcaller : s'.caller = Function.update s.caller c pc)
    (hworkers : s'.workers.countP WorkerPc.looks = s.workers.countP WorkerPc.looks)
    (hhandle : s.semaphoreHandle ≠ none ∨ pc = .releaseSemaphore → s'.semaphoreHandle ≠ none)
    (hcount : s'.semaphoreHandle.getD 0 + pc.owes + s.queueListHead.length =
      s.semaphoreHandle.getD 0 + old.owes + s'.queueListHead.length)
    (hfew : s'.queueListHead.length ≤ 0x7fffffff)
    (hterminating : s'.terminating = s.terminating) : SignalInv s' := by
  have howes := Census.total_update QueuePc.owes s.caller c pc
  have hbalance := h.balance
  rw [← hcaller, hold] at howes
  refine ⟨by omega, fun d hd => ?_, hfew, hterminating.trans h.notTerminating⟩
  rw [hcaller] at hd
  by_cases hdc : d = c
  · rw [hdc, Function.update_self] at hd
    exact hhandle (.inr hd)
  · rw [Function.update_of_ne hdc] at hd
    exact hhandle (.inl (h.created d hd))

theorem SignalInv.caller (h : SignalInv s) (c : κ) :
    SignalInv (s.phQueueItemWorkQueueEx maximumThreads c) := by
  unfold WorkQueueState.phQueueItemWorkQueueEx
  cases hpc : s.caller c with
  | idle => exact h
  | getSemaphore => exact h.callerTo hpc rfl rfl (fun _ => Option.some_ne_none _) rfl h.few rfl
  | releaseSemaphore =>
      obtain ⟨count, hcount⟩ := Option.ne_none_iff_exists'.mp (h.created c hpc)
      have howes : 1 ≤ Census.total QueuePc.owes s.caller := by
        have hle := Census.le_total QueuePc.owes s.caller c
        rw [hpc] at hle
        exact hle
      have hbalance := h.balance
      have hfew := h.few
      rw [hcount, Option.getD_some] at hbalance
      have hreleased : (s.ntReleaseSemaphore 1).semaphoreHandle = some (count + 1) := by
        rw [WorkQueueState.ntReleaseSemaphore, hcount, Option.map_some, if_pos (by omega)]
      refine h.callerTo hpc rfl rfl (fun _ => ?_) ?_ h.few rfl
      · exact hreleased ▸ Option.some_ne_none _
      · show (s.ntReleaseSemaphore 1).semaphoreHandle.getD 0 + 0 + _ = _ + 1 + _
        rw [hreleased, hcount]
        rfl
  | readBusyCount => exact h.callerTo hpc rfl rfl (fun hor => hor.resolve_right (by simp)) rfl h.few rfl
  | readCurrentThreads | readLimit =>
      dsimp only
      split <;> exact h.callerTo hpc rfl rfl (fun hor => hor.resolve_right (by simp)) rfl h.few rfl
  | createThread =>
      dsimp only
      split
      · rw [WorkQueueState.phpCreateWorkQueueThread]
        split
        · exact h.callerTo hpc rfl rfl (fun hor => hor.resolve_right (by simp)) rfl h.few rfl
        · exact h.callerTo hpc rfl List.countP_append (fun hor => hor.resolve_right (by simp)) rfl
            h.few rfl
      · exact h.callerTo hpc rfl rfl (fun hor => hor.resolve_right (by simp)) rfl h.few rfl

theorem SignalInv.next {allowed : WorkQueueState κ → Nat → Prop} (h : SignalInv s)
    (hstep : WorkQueueStep minimumThreads maximumThreads False allowed (· < 0x7fffffff) s s') :
    SignalInv s' := by
  cases hstep with
  | insert c deleteFunction hidle hdeleter hroom =>
      rw [WorkQueueState.busy] at hroom
      refine h.callerTo hidle rfl rfl (fun hor => hor.resolve_right (by decide)) ?_ ?_ rfl
      · show s.semaphoreHandle.getD 0 + 1 + s.queueListHead.length =
          s.semaphoreHandle.getD 0 + 0 + (s.queueListHead ++ [_]).length
        rw [List.length_append, List.length_singleton]
        omega
      · show (s.queueListHead ++ [_]).length ≤ 0x7fffffff
        rw [List.length_append, List.length_singleton]
        omega
  | caller c => exact h.caller c
  | worker i _ => exact h.worker
  | wake i count hwait hcount =>
      refine h.move hwait rfl rfl (fun _ => Option.some_ne_none _) ?_ (Nat.le_refl _) rfl
      rw [hcount]
      rfl
  | timeout i hwait hzero => exact h.move hwait rfl rfl id rfl (Nat.le_refl _) rfl
  | delete hmay => exact hmay.elim

/-- Each item on the list has its signal, so that a worker that was woken finds one. -/
theorem workQueue_signals {allowed : WorkQueueState κ → Nat → Prop}
    (hrun : Relation.ReflTransGen
      (WorkQueueStep minimumThreads maximumThreads False allowed (· < 0x7fffffff))
      WorkQueueState.phInitializeWorkQueue s) :
    s.semaphoreHandle.getD 0 + s.workers.countP WorkerPc.looks +
      Census.total QueuePc.owes s.caller = s.queueListHead.length ∧
    ∀ i : Nat, s.workers[i]? = some WorkerPc.dequeue → s.queueListHead ≠ [] := by
  have h : SignalInv s := by
    induction hrun with
    | refl =>
        refine ⟨?_, fun c hc => (by cases hc), Nat.zero_le _, rfl⟩
        exact (Nat.zero_add _).trans (Census.total_eq_zero fun _ => rfl)
    | tail _ hstep ih => exact ih.next hstep
  exact ⟨h.balance, fun i hpc => h.dequeue hpc⟩

end

/-! ## A queue that serves its items, and one that does not -/

def WorkQueueState.goCaller (s : WorkQueueState Unit) (n : Nat) : WorkQueueState Unit :=
  (fun s => s.phQueueItemWorkQueueEx 3 ())^[n] s

def WorkQueueState.goWorker (s : WorkQueueState Unit) (i n : Nat) : WorkQueueState Unit :=
  (fun s => s.phpWorkQueueThreadStart 0 3 i)^[n] s

def WorkQueueState.wakeUp (s : WorkQueueState Unit) (i : Nat) : WorkQueueState Unit :=
  { s with semaphoreHandle := s.semaphoreHandle.map (· - 1) }.workerTo i .woken

theorem WorkQueueState.goCaller_run {allowed : WorkQueueState Unit → Nat → Prop} {mayDelete : Prop}
    {room : Nat → Prop} (s : WorkQueueState Unit) (n : Nat) :
    Relation.ReflTransGen (WorkQueueStep 0 3 mayDelete allowed room) s (s.goCaller n) :=
  Runs.iterate_run (fun _ => .caller ()) n s

theorem WorkQueueState.goWorker_run {mayDelete : Prop} {room : Nat → Prop}
    (s : WorkQueueState Unit) (i n : Nat) : Relation.ReflTransGen
      (WorkQueueStep 0 3 mayDelete (fun _ _ => True) room) s (s.goWorker i n) :=
  Runs.iterate_run (fun _ => .worker i trivial) n s

theorem WorkQueueState.goWorker_sound {mayDelete : Prop} {room : Nat → Prop}
    (s : WorkQueueState Unit) (i n : Nat)
    (h : ∀ k < n, (s.goWorker i k).workers[i]? ≠ some .giveUp) : Relation.ReflTransGen
      (WorkQueueStep 0 3 mayDelete (WorkQueueState.Sound 0) room) s (s.goWorker i n) :=
  Runs.iterate_run_of fun k hk => .worker i fun hgive => absurd hgive (h k hk)

/-- A caller has queued an item and created a worker, which waits. -/
def oneWorker : WorkQueueState Unit :=
  ((WorkQueueState.phInitializeWorkQueue.insertTail () true).goCaller 6).goWorker 0 3

/-- The worker was woken, and the item is still on the list. -/
theorem workQueue_signals_woken : (oneWorker.wakeUp 0).workers = [.woken] ∧
    ((oneWorker.wakeUp 0).semaphoreHandle.getD 0 +
      (oneWorker.wakeUp 0).workers.countP WorkerPc.looks +
      Census.total QueuePc.owes (oneWorker.wakeUp 0).caller =
        (oneWorker.wakeUp 0).queueListHead.length ∧
    ∀ i : Nat, (oneWorker.wakeUp 0).workers[i]? = some WorkerPc.dequeue →
      (oneWorker.wakeUp 0).queueListHead ≠ []) := by
  have hwake : WorkQueueStep 0 3 False (fun _ _ => True) (· < 0x7fffffff) oneWorker
      (oneWorker.wakeUp 0) := .wake 0 0 (by decide) (by decide)
  exact ⟨by decide, workQueue_signals (.head (.insert () true rfl rfl (by decide))
    ((WorkQueueState.goCaller_run _ 6).trans ((WorkQueueState.goWorker_run _ 0 3).trans
      (.single hwake))))⟩

def itemServed : WorkQueueState Unit := (oneWorker.wakeUp 0).goWorker 0 8

theorem itemServed_run : Relation.ReflTransGen
    (WorkQueueStep 0 3 False (WorkQueueState.Sound 0) BusyCountFits)
    WorkQueueState.phInitializeWorkQueue itemServed := by
  have hinsert : WorkQueueStep 0 3 False (WorkQueueState.Sound 0) BusyCountFits
      WorkQueueState.phInitializeWorkQueue
      (WorkQueueState.phInitializeWorkQueue.insertTail () true) :=
    .insert () true rfl rfl (by rw [BusyCountFits]; decide)
  have hwaits : Relation.ReflTransGen
      (WorkQueueStep 0 3 False (WorkQueueState.Sound 0) BusyCountFits)
      ((WorkQueueState.phInitializeWorkQueue.insertTail () true).goCaller 6) oneWorker :=
    WorkQueueState.goWorker_sound _ 0 3 (by decide)
  have hwake : WorkQueueStep 0 3 False (WorkQueueState.Sound 0) BusyCountFits oneWorker
      (oneWorker.wakeUp 0) := .wake 0 0 (by decide) (by decide)
  have hserves : Relation.ReflTransGen
      (WorkQueueStep 0 3 False (WorkQueueState.Sound 0) BusyCountFits) (oneWorker.wakeUp 0)
      itemServed := WorkQueueState.goWorker_sound _ 0 8 (by decide)
  exact .head hinsert ((WorkQueueState.goCaller_run _ 6).trans (hwaits.trans (.head hwake hserves)))

def WorkQueueState.goDelete (s : WorkQueueState Unit) (n : Nat) : WorkQueueState Unit :=
  WorkQueueState.phDeleteWorkQueue^[n] s

/-- An item has come after the first was executed, and the queue is being deleted. -/
def queueDeleting : WorkQueueState Unit :=
  ((itemServed.insertTail () false).goCaller 6).goDelete 3

/-- The workers have exited, and the second item was drained. -/
def queueDeleted : WorkQueueState Unit :=
  (((queueDeleting.wakeUp 0).goWorker 0 3).goWorker 1 5).goDelete 3

theorem queueDeleted_run : Relation.ReflTransGen
    (WorkQueueStep 0 3 True (fun _ _ => True) (fun _ => True))
    WorkQueueState.phInitializeWorkQueue queueDeleted := by
  have hgo : ∀ (s : WorkQueueState Unit) (n : Nat), Relation.ReflTransGen
      (WorkQueueStep 0 3 True (fun _ _ => True) (fun _ => True)) s (s.goDelete n) :=
    fun s n => Runs.iterate_run (fun _ => .delete trivial) n s
  have hwake : WorkQueueStep 0 3 True (fun _ _ => True) (fun _ => True) oneWorker
      (oneWorker.wakeUp 0) := .wake 0 0 (by decide) (by decide)
  have hserved : Relation.ReflTransGen (WorkQueueStep 0 3 True (fun _ _ => True) (fun _ => True))
      WorkQueueState.phInitializeWorkQueue itemServed :=
    .head (.insert () true rfl rfl trivial) ((WorkQueueState.goCaller_run _ 6).trans
      ((WorkQueueState.goWorker_run _ 0 3).trans
        (.head hwake (WorkQueueState.goWorker_run _ 0 8))))
  have hdeleting : Relation.ReflTransGen
      (WorkQueueStep 0 3 True (fun _ _ => True) (fun _ => True)) itemServed queueDeleting :=
    .head (.insert () false (by decide) (by decide) trivial)
      ((WorkQueueState.goCaller_run _ 6).trans (hgo _ 3))
  have hwake' : WorkQueueStep 0 3 True (fun _ _ => True) (fun _ => True) queueDeleting
      (queueDeleting.wakeUp 0) := .wake 0 2 (by decide) (by decide)
  exact hserved.trans (hdeleting.trans (.head hwake' ((WorkQueueState.goWorker_run _ 0 3).trans
    ((WorkQueueState.goWorker_run _ 1 5).trans (hgo _ 3)))))

theorem phDeleteWorkQueue_disposes_drained : queueDeleted.deleter = .returned ∧
    queueDeleted.called = [⟨0, true⟩] ∧ queueDeleted.freed = [⟨1, false⟩, ⟨0, true⟩] ∧
    WorkQueueDisposes queueDeleted :=
  ⟨by decide, by decide, by decide,
    phDeleteWorkQueue_disposes queueDeleted_run⟩

end SystemInformer.PhLib
