import SystemInformer.PhLib.WorkQueue
import SystemInformer.Proofs.WorkQueue

/-!
# Who waits for a work queue, and what for

An item that has been queued is on the list, or a worker has it and has yet to execute it, or it
was executed. A waiter that finds the list empty therefore knows that the items queued before its
call were executed, but for those that a worker has; about them the list tells nothing.
-/

set_option linter.unusedSectionVars false

namespace SystemInformer.PhLib

variable {κ ω : Type} [DecidableEq κ] [DecidableEq ω] {minimumThreads maximumThreads : ULong}
  {past : WorkQueueState κ}

/-! ## Where the items are -/

/-- Every item is on the list, with a worker, or executed, and what was queued or executed in the
past still is. -/
def WorkQueueState.Accounts (past s : WorkQueueState κ) : Prop :=
  (∀ item ∈ s.queued, item ∈ s.queueListHead ∨ .execute item ∈ s.workers ∨ item ∈ s.called) ∧
    past.queued ⊆ s.queued ∧ past.called ⊆ s.called

theorem WorkQueueState.Accounts.same {s s' : WorkQueueState κ} (h : past.Accounts s)
    (hqueued : s'.queued = s.queued) (hqueue : s'.queueListHead = s.queueListHead)
    (hworkers : ∀ item, .execute item ∈ s.workers → .execute item ∈ s'.workers)
    (hcalled : s'.called = s.called) : past.Accounts s' := by
  obtain ⟨hitems, hpast⟩ := h
  rw [WorkQueueState.Accounts, hqueued, hqueue, hcalled]
  exact ⟨fun item hitem => (hitems item hitem).imp_right (Or.imp_left (hworkers item)), hpast⟩

theorem mem_set_of_executes {workers : List WorkerPc} {i : Nat} {old pc : WorkerPc}
    {item : WorkQueueItem} (hold : workers[i]? = some old) (hne : old ≠ .execute item)
    (hmem : .execute item ∈ workers) : .execute item ∈ workers.set i pc := by
  obtain ⟨j, hj⟩ := List.mem_iff_getElem?.mp hmem
  refine List.mem_iff_getElem?.mpr ⟨j, ?_⟩
  rw [List.getElem?_set_ne, hj]
  rintro rfl
  rw [hold] at hj
  exact hne (Option.some.inj hj)

theorem WorkQueueState.Accounts.workerTo {s s' : WorkQueueState κ} {i : Nat} {old pc : WorkerPc}
    (h : past.Accounts s) (hold : s.workers[i]? = some old) (hworkers : s'.workers = s.workers.set i pc)
    (hne : ∀ item, old ≠ .execute item) (hqueued : s'.queued = s.queued)
    (hqueue : s'.queueListHead = s.queueListHead) (hcalled : s'.called = s.called) :
    past.Accounts s' :=
  h.same hqueued hqueue (fun item hmem => hworkers ▸ mem_set_of_executes hold (hne item) hmem)
    hcalled

theorem WorkQueueState.Accounts.dequeue {s : WorkQueueState κ} {i : Nat} {item : WorkQueueItem}
    {items : List WorkQueueItem} (h : past.Accounts s) (hold : s.workers[i]? = some .dequeue)
    (hqueue : s.queueListHead = item :: items) : past.Accounts
      ({ s with queueListHead := items, taken := s.taken ++ [item] }.workerTo i
        (.execute item)) := by
  obtain ⟨hlength, -⟩ := List.getElem?_eq_some_iff.mp hold
  refine ⟨fun item' hitem => ?_, h.2⟩
  rcases h.1 item' hitem with hmem | hmem | hmem
  · rw [hqueue, List.mem_cons] at hmem
    rcases hmem with rfl | hmem
    · exact .inr (.inl (List.mem_set hlength _))
    · exact .inl hmem
  · exact .inr (.inl (mem_set_of_executes hold (by simp) hmem))
  · exact .inr (.inr hmem)

theorem WorkQueueState.Accounts.execute {s : WorkQueueState κ} {i : Nat} {item : WorkQueueItem}
    (h : past.Accounts s) (hold : s.workers[i]? = some (.execute item)) : past.Accounts
      ({ s with called := item :: s.called }.workerTo i (.finish item)) := by
  refine ⟨fun item' hitem => ?_, h.2.1, fun _ hmem => List.mem_cons_of_mem _ (h.2.2 hmem)⟩
  rcases h.1 item' hitem with hmem | hmem | hmem
  · exact .inl hmem
  · by_cases hitem' : item' = item
    · subst hitem'
      exact .inr (.inr List.mem_cons_self)
    · refine .inr (.inl (mem_set_of_executes hold (fun heq => hitem' ?_) hmem))
      exact (WorkerPc.execute.inj heq).symm
  · exact .inr (.inr (List.mem_cons_of_mem _ hmem))

theorem WorkQueueState.Accounts.worker {s : WorkQueueState κ} (h : past.Accounts s) (i : Nat) :
    past.Accounts (s.phpWorkQueueThreadStart minimumThreads maximumThreads i) := by
  rw [WorkQueueState.phpWorkQueueThreadStart]
  split
  · exact h
  · next hpc => exact h.workerTo hpc rfl (by simp) rfl rfl rfl
  · next hpc =>
      split
      · exact h.workerTo hpc rfl (by simp) rfl rfl rfl
      · exact h.workerTo hpc rfl (by simp) rfl rfl rfl
  · next hpc => exact h.workerTo hpc rfl (by simp) rfl rfl rfl
  · next hpc => exact h.workerTo hpc rfl (by simp) rfl rfl rfl
  · exact h
  · next hpc => exact h.workerTo hpc rfl (by simp) rfl rfl rfl
  · next hpc =>
      split
      · exact h.workerTo hpc rfl (by simp) rfl rfl rfl
      · next hqueue => exact h.dequeue hpc hqueue
  · next hpc => exact h.execute hpc
  · next hpc => exact h.workerTo hpc rfl (by simp) rfl rfl rfl
  · next hpc => exact h.workerTo hpc rfl (by simp) rfl rfl rfl
  · next hpc =>
      split
      · exact h.workerTo hpc rfl (by simp) rfl rfl rfl
      · exact h.workerTo hpc rfl (by simp) rfl rfl rfl
  · next hpc => exact h.workerTo hpc rfl (by simp) rfl rfl rfl
  · exact h

theorem WorkQueueState.Accounts.caller {s : WorkQueueState κ} (h : past.Accounts s) (c : κ) :
    past.Accounts (s.phQueueItemWorkQueueEx maximumThreads c) := by
  rw [WorkQueueState.phQueueItemWorkQueueEx]
  split
  · exact h
  · exact h
  · exact h
  · exact h
  · exact h
  · exact h
  · split
    · rw [WorkQueueState.phpCreateWorkQueueThread]
      split
      · exact h
      · exact h.same rfl rfl (fun _ hmem => List.mem_append_left _ hmem) rfl
    · exact h

theorem WorkQueueState.Accounts.insert {s : WorkQueueState κ} (h : past.Accounts s) (c : κ)
    (deleteFunction : Bool) : past.Accounts (s.insertTail c deleteFunction) := by
  refine ⟨fun item hitem => ?_, fun _ hmem => List.mem_append_left _ (h.2.1 hmem), h.2.2⟩
  rcases List.mem_append.mp hitem with hmem | hmem
  · exact (h.1 item hmem).imp_left (List.mem_append_left _)
  · exact .inl (List.mem_append_right _ hmem)

theorem WorkQueueState.Accounts.delete {s : WorkQueueState κ} (h : past.Accounts s) :
    past.Accounts s.phDeleteWorkQueue := by
  rw [WorkQueueState.phDeleteWorkQueue]
  split
  · exact h
  · exact h
  · exact h
  · split
    · exact h
    · exact h
  · exact h
  · exact h
  · exact h

theorem WorkQueueState.Accounts.step {mayDelete : Prop} {allowed : WorkQueueState κ → Nat → Prop}
    {room : Nat → Prop} {s s' : WorkQueueState κ} (h : past.Accounts s)
    (hstep : WorkQueueStep minimumThreads maximumThreads mayDelete allowed room s s') :
    past.Accounts s' := by
  cases hstep with
  | insert c deleteFunction hidle hdeleter hroom => exact h.insert c deleteFunction
  | caller c => exact h.caller c
  | worker i hallowed => exact h.worker i
  | wake i count hwait hcount => exact h.workerTo hwait rfl (by simp) rfl rfl rfl
  | timeout i hwait hzero => exact h.workerTo hwait rfl (by simp) rfl rfl rfl
  | delete hmay => exact h.delete

/-! ## The waiters -/

/-- The items that a waiter waits for, or has waited for. -/
def QueueWaiterPc.before : QueueWaiterPc → List WorkQueueItem
  | .idle => []
  | .check before => before
  | .waiting before => before
  | .returned before => before

/-- No worker has yet to execute an item that was queued before the call of a waiter that finds
the list empty. -/
def WorkQueueWaits.NoneExecuting (s : WorkQueueWaits κ ω) (before : List WorkQueueItem) : Prop :=
  s.queue.queueListHead = [] → ∀ item ∈ before, .execute item ∉ s.queue.workers

structure WorkQueueWaitsInv (s : WorkQueueWaits κ ω) : Prop where
  accounts : s.queue.Accounts s.queue
  queued : ∀ w, (s.waiter w).before ⊆ s.queue.queued
  returned : ∀ w before, s.waiter w = .returned before → before ⊆ s.queue.called

variable {s s' : WorkQueueWaits κ ω}

theorem WorkQueueWaitsInv.queue {queue : WorkQueueState κ} (h : WorkQueueWaitsInv s)
    (haccounts : s.queue.Accounts queue) : WorkQueueWaitsInv { s with queue := queue } where
  accounts := ⟨haccounts.1, List.Subset.refl _, List.Subset.refl _⟩
  queued w := List.Subset.trans (h.queued w) haccounts.2.1
  returned w before hpc := List.Subset.trans (h.returned w before hpc) haccounts.2.2

theorem WorkQueueWaitsInv.waiterTo {w : ω} {pc : QueueWaiterPc} (h : WorkQueueWaitsInv s)
    (hqueued : pc.before ⊆ s.queue.queued)
    (hreturned : ∀ before, pc = .returned before → before ⊆ s.queue.called) :
    WorkQueueWaitsInv (s.waiterTo w pc) := by
  refine ⟨h.accounts, fun u => ?_, fun u before hpc => ?_⟩
  · show (Function.update s.waiter w pc u).before ⊆ s.queue.queued
    by_cases hu : u = w
    · rw [hu, Function.update_self]
      exact hqueued
    · rw [Function.update_of_ne hu]
      exact h.queued u
  · replace hpc : Function.update s.waiter w pc u = .returned before := hpc
    by_cases hu : u = w
    · rw [hu, Function.update_self] at hpc
      exact hreturned before hpc
    · rw [Function.update_of_ne hu] at hpc
      exact h.returned u before hpc

theorem WorkQueueWaitsInv.pulse (h : WorkQueueWaitsInv s) (hpulse : s.PhPulseCondition s') :
    WorkQueueWaitsInv s' := by
  cases hpulse with
  | wake w before hwaiting =>
      have hqueued := h.queued w
      rw [hwaiting] at hqueued
      exact h.waiterTo hqueued fun _ hno => by cases hno
  | nobody _ => exact h

theorem WorkQueueWaitsInv.check {w : ω} {before : List WorkQueueItem} (h : WorkQueueWaitsInv s)
    (hpc : s.waiter w = .check before) (hallowed : s.NoneExecuting before) :
    WorkQueueWaitsInv (s.phWaitForWorkQueue w before) := by
  have hqueued := h.queued w
  rw [hpc] at hqueued
  rw [WorkQueueWaits.phWaitForWorkQueue]
  split
  · next hempty =>
      refine h.waiterTo hqueued fun _ heq item hitem => ?_
      cases heq
      rcases h.accounts.1 item (hqueued hitem) with hlist | hworker | hcalled
      · rw [hempty] at hlist
        cases hlist
      · exact absurd hworker (hallowed hempty item hitem)
      · exact hcalled
  · exact h.waiterTo hqueued fun _ hno => by cases hno

theorem WorkQueueWaitsInv.step (h : WorkQueueWaitsInv s)
    (hstep : WorkQueueWaitStep minimumThreads maximumThreads WorkQueueWaits.NoneExecuting s s') :
    WorkQueueWaitsInv s' := by
  cases hstep with
  | queue hstep => exact h.queue (h.accounts.step hstep)
  | dequeue i hpc hpulse =>
      have hworker := h.queue
        (@WorkQueueState.Accounts.worker κ _ minimumThreads maximumThreads _ _ h.accounts i)
      dsimp only at hpulse
      split at hpulse
      · exact hworker.pulse hpulse
      · rw [hpulse]
        exact hworker
  | call w hpc => exact h.waiterTo (List.Subset.refl _) fun _ hno => by cases hno
  | check w before hpc hallowed => exact h.check hpc hallowed

theorem workQueueWaitsInv_start : WorkQueueWaitsInv (WorkQueueWaits.start : WorkQueueWaits κ ω) where
  accounts := ⟨fun _ hmem => absurd hmem List.not_mem_nil, List.Subset.refl _,
    List.Subset.refl _⟩
  queued _ := List.nil_subset _
  returned _ _ hno := by cases hno

/-- In every run in which no waiter finds the list empty while a worker has yet to execute an
item queued before its call, a waiter returns when all items queued before were executed. -/
theorem phWaitForWorkQueue_waits
    (hrun : Relation.ReflTransGen
      (WorkQueueWaitStep minimumThreads maximumThreads WorkQueueWaits.NoneExecuting)
      WorkQueueWaits.start s) :
    ∀ w before, s.waiter w = .returned before → ∀ item ∈ before, item ∈ s.queue.called := by
  have h : WorkQueueWaitsInv s := by
    induction hrun with
    | refl => exact workQueueWaitsInv_start
    | tail _ hstep ih => exact ih.step hstep
  exact fun w before hpc item hitem => h.returned w before hpc hitem

/-! ## A wait for an item, and one that ends too early -/

theorem WorkQueueWaitStep.of_queue {allowed : WorkQueueWaits κ ω → List WorkQueueItem → Prop}
    {queue queue' : WorkQueueState κ} {waiter : ω → QueueWaiterPc}
    (hnobody : ∀ w before, waiter w ≠ .waiting before)
    (hstep : WorkQueueStep minimumThreads maximumThreads True (fun _ _ => True) (fun _ => True)
      queue queue') :
    WorkQueueWaitStep minimumThreads maximumThreads allowed ⟨queue, waiter⟩ ⟨queue', waiter⟩ := by
  have hqueue : ∀ {queue'}, WorkQueueStep minimumThreads maximumThreads True
      (fun queue i => queue.workers[i]? ≠ some .dequeue) (fun _ => True) queue queue' →
      WorkQueueWaitStep minimumThreads maximumThreads allowed ⟨queue, waiter⟩ ⟨queue', waiter⟩ :=
    fun hstep => .queue hstep
  cases hstep with
  | insert c deleteFunction hidle hdeleter hroom =>
      exact hqueue (.insert c deleteFunction hidle hdeleter hroom)
  | caller c => exact hqueue (.caller c)
  | worker i hallowed =>
      by_cases hpc : queue.workers[i]? = some .dequeue
      · refine .dequeue i hpc ?_
        dsimp only
        split
        · exact .nobody hnobody
        · rfl
      · exact hqueue (.worker i hpc)
  | wake i count hwait hcount => exact hqueue (.wake i count hwait hcount)
  | timeout i hwait hzero => exact hqueue (.timeout i hwait hzero)
  | delete hmay => exact hqueue (.delete hmay)

theorem WorkQueueStep.unrestricted {mayDelete : Prop}
    {allowed : WorkQueueState κ → Nat → Prop} {room : Nat → Prop} {queue queue' : WorkQueueState κ}
    (hstep : WorkQueueStep minimumThreads maximumThreads mayDelete allowed room queue queue') :
    WorkQueueStep minimumThreads maximumThreads True (fun _ _ => True) (fun _ => True)
      queue queue' := by
  cases hstep with
  | insert c deleteFunction hidle hdeleter _ => exact .insert c deleteFunction hidle hdeleter trivial
  | caller c => exact .caller c
  | worker i _ => exact .worker i trivial
  | wake i count hwait hcount => exact .wake i count hwait hcount
  | timeout i hwait hzero => exact .timeout i hwait hzero
  | delete _ => exact .delete trivial

theorem WorkQueueWaitStep.run_of_queue
    {allowed : WorkQueueWaits κ ω → List WorkQueueItem → Prop} {mayDelete : Prop}
    {mayWork : WorkQueueState κ → Nat → Prop} {room : Nat → Prop} {queue queue' : WorkQueueState κ}
    (hrun : Relation.ReflTransGen
      (WorkQueueStep minimumThreads maximumThreads mayDelete mayWork room) queue queue') :
    Relation.ReflTransGen (WorkQueueWaitStep minimumThreads maximumThreads allowed)
      ⟨queue, fun _ : ω => .idle⟩ ⟨queue', fun _ => .idle⟩ := by
  induction hrun with
  | refl => exact .refl
  | tail _ hstep ih =>
      exact ih.tail (.of_queue (fun _ _ hno => by cases hno) hstep.unrestricted)

/-- A thread waits for the queue, and finds the list empty. -/
def awaited (queue : WorkQueueState Unit) : WorkQueueWaits Unit Unit :=
  ((WorkQueueWaits.mk queue fun _ => .idle).waiterTo () (.check queue.queued)).phWaitForWorkQueue ()
    queue.queued

theorem awaited_run {allowed : WorkQueueWaits Unit Unit → List WorkQueueItem → Prop}
    {mayDelete : Prop} {mayWork : WorkQueueState Unit → Nat → Prop} {room : Nat → Prop}
    {queue : WorkQueueState Unit}
    (hrun : Relation.ReflTransGen (WorkQueueStep 0 3 mayDelete mayWork room)
      WorkQueueState.phInitializeWorkQueue queue)
    (hallowed : allowed ((WorkQueueWaits.mk queue fun _ => .idle).waiterTo ()
      (.check queue.queued)) queue.queued) :
    Relation.ReflTransGen (WorkQueueWaitStep 0 3 allowed) WorkQueueWaits.start (awaited queue) :=
  ((WorkQueueWaitStep.run_of_queue hrun).tail (.call () (.inl rfl))).tail
    (.check () queue.queued rfl hallowed)

theorem phWaitForWorkQueue_waits_item :
    (awaited itemServed).waiter () = .returned [⟨0, true⟩] ∧
      ⟨0, true⟩ ∈ (awaited itemServed).queue.called := by
  have hreturned : (awaited itemServed).waiter () = .returned [⟨0, true⟩] := by decide
  refine ⟨hreturned, phWaitForWorkQueue_waits (awaited_run itemServed_run fun _ => ?_) () _
    hreturned _ List.mem_cons_self⟩
  show ∀ item ∈ itemServed.queued, WorkerPc.execute item ∉ itemServed.workers
  decide

def itemTaken : WorkQueueState Unit := (oneWorker.wakeUp 0).goWorker 0 2

theorem itemTaken_run : Relation.ReflTransGen
    (WorkQueueStep 0 3 False (fun _ _ => True) (fun _ => True))
    WorkQueueState.phInitializeWorkQueue itemTaken := by
  have hwake : WorkQueueStep 0 3 False (fun _ _ => True) (fun _ => True) oneWorker
      (oneWorker.wakeUp 0) := .wake 0 0 (by decide) (by decide)
  exact .head (.insert () true rfl rfl trivial) ((WorkQueueState.goCaller_run _ 6).trans
    ((WorkQueueState.goWorker_run _ 0 3).trans (.head hwake (WorkQueueState.goWorker_run _ 0 2))))

/-- A waiter returns before the item that was queued is executed. -/
theorem phWaitForWorkQueue_returnsEarly : ∃ s : WorkQueueWaits Unit Unit,
    Relation.ReflTransGen (WorkQueueWaitStep 0 3 fun _ _ => True) WorkQueueWaits.start s ∧
      s.waiter () = .returned [⟨0, true⟩] ∧ ⟨0, true⟩ ∉ s.queue.called :=
  ⟨awaited itemTaken, awaited_run itemTaken_run trivial, by decide, by decide⟩

end SystemInformer.PhLib
