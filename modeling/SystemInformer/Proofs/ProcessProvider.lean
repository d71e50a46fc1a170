import SystemInformer.App.ProcessProvider
import SystemInformer.Proofs.HashSet

/-!
# The process provider shows the processes of the system, and counts their cycles

The system lists every process once. Then the items of the provider are the processes of the last
update that got a list, together with the fake ones, and whoever has followed the events from the
beginning knows them. A process identifier that was used again has a new item.

In an update a process takes what its item shows as its delta. This is also what was added to the
total of the update before the items changed, except for the interrupts, where the system is asked
again in an update that gets no list. So the deltas of the items, with what the removed ones took
to their end, are the total and the cycles that the system took in such updates.
-/

namespace SystemInformer.App

open Reconcile PhLib

variable {options : ProviderOptions} {s : ProcessProvider} {u : ProviderUpdate}
  {processes : List ProcessInformation} {process : ProcessInformation} {item : PhProcessItem}

/-- The system lists a process once, and not as a fake one. -/
structure Listed (processes : List ProcessInformation) : Prop where
  nodup : (processes.map (·.uniqueProcessId)).Nodup
  real : ∀ process ∈ processes,
    process.uniqueProcessId ≠ dpcsProcessId ∧ process.uniqueProcessId ≠ interruptsProcessId

/-- What tells a process apart from all others. -/
def ProcessInformation.identity (options : ProviderOptions) (process : ProcessInformation) :
    Handle × BitVec 64 :=
  (process.uniqueProcessId,
    if options.enableProcessExtension then process.processSequenceNumber else process.createTime)

def PhProcessItem.identity (options : ProviderOptions) (item : PhProcessItem) :
    Handle × BitVec 64 :=
  (item.processId,
    if options.enableProcessExtension then item.processSequenceNumber else item.createTime)

def fakeIdentities (options : ProviderOptions) : List (Handle × BitVec 64) :=
  if options.enableCycleCpuUsage then [(interruptsProcessId, 0)]
  else [(dpcsProcessId, 0), (interruptsProcessId, 0)]

def identities (options : ProviderOptions) (processes : List ProcessInformation) :
    List (Handle × BitVec 64) :=
  processes.map (·.identity options) ++ fakeIdentities options

theorem sameProcess_iff (hid : item.processId = process.uniqueProcessId) :
    sameProcess options process item = true ↔ item.identity options = process.identity options := by
  rw [sameProcess, PhProcessItem.identity, ProcessInformation.identity, hid]
  split <;> simp [eq_comm]

theorem identity_fillIdle : (fillIdle s process).identity options = process.identity options := by
  rw [fillIdle]
  split <;> rfl

theorem identity_fakeProcesses :
    (fakeProcesses options s).map (·.identity options) = fakeIdentities options := by
  rw [fakeProcesses, fakeIdentities]
  split <;> simp [ProcessInformation.identity, dpcsProcessInformation,
    interruptsProcessInformation]

def entries (options : ProviderOptions) (s : ProcessProvider)
    (processes : List ProcessInformation) : List ProcessInformation :=
  processes.map (fillIdle s) ++ fakeProcesses options s

theorem identity_entries :
    (entries options s processes).map (·.identity options) = identities options processes := by
  rw [entries, List.map_append, identity_fakeProcesses, List.map_map, identities]
  exact congrArg (· ++ _) (List.map_congr_left fun process _ => identity_fillIdle)

theorem id_entries : (entries options s processes).map (·.uniqueProcessId) =
    (identities options processes).map Prod.fst := by
  rw [← identity_entries (s := s), List.map_map]
  rfl

theorem Listed.nodup_identities (h : Listed processes) :
    ((identities options processes).map Prod.fst).Nodup := by
  rw [identities, List.map_append, List.map_map]
  refine List.Nodup.append h.nodup ?_ fun id hreal hfake => ?_
  · rw [fakeIdentities]
    split <;> decide
  · obtain ⟨process, hprocess, rfl⟩ := List.mem_map.mp hreal
    obtain ⟨hdpcs, hinterrupts⟩ := h.real process hprocess
    rw [fakeIdentities] at hfake
    split at hfake
    · simp [ProcessInformation.identity, hinterrupts] at hfake
    · simp [ProcessInformation.identity, hinterrupts, hdpcs] at hfake

/-! ## The buckets of an update -/

theorem lookup_pidBuckets (h : (processes.map (·.uniqueProcessId)).Nodup) {id : Handle} :
    HashItems.lookup (·.uniqueProcessId) hashProcessId (pidBuckets processes) id = some process ↔
      process ∈ processes ∧ process.uniqueProcessId = id := by
  have hcreate : HashItems.Inv ProcessInformation.uniqueProcessId hashProcessId false
      (.create 64) := HashItems.inv_create 6
  obtain ⟨hinv, hitems⟩ := hcreate.add_all processes
  rw [HashItems.items_create, List.append_nil] at hitems
  have htidy : Tidy (HashItems.collection (·.uniqueProcessId) hashProcessId false)
      (fun hashSet => ∃ t, hashSet = some t ∧ HashItems.Inv _ hashProcessId false t)
      (some (pidBuckets processes)) :=
    ⟨⟨_, rfl, hinv⟩, (hitems.map _).nodup_iff.mpr h⟩
  exact (lookup_iff HashItems.collection_lawful htidy).trans
    (and_congr_left fun _ => hitems.mem_iff)

theorem processEntry_eq (h : Listed (processes.map (fillIdle s)))
    (hprocess : process ∈ entries options s processes)
    (hid : item.processId = process.uniqueProcessId) :
    processEntry options s (processes.map (fillIdle s)) item = some process := by
  rw [processEntry, hid]
  rcases List.mem_append.mp hprocess with hreal | hfake
  · obtain ⟨hdpcs, hinterrupts⟩ := h.real process hreal
    rw [if_neg hdpcs, if_neg hinterrupts]
    exact (lookup_pidBuckets h.nodup).mpr ⟨hreal, rfl⟩
  · rw [fakeProcesses] at hfake
    split at hfake
    · obtain rfl := List.mem_singleton.mp hfake
      rfl
    · rcases List.mem_pair.mp hfake with rfl | rfl <;> rfl

theorem Listed.fillIdle (h : Listed processes) : Listed (processes.map (fillIdle s)) := by
  have hid : ∀ process : ProcessInformation,
      (App.fillIdle s process).uniqueProcessId = process.uniqueProcessId := fun process =>
    congrArg Prod.fst (identity_fillIdle : _ = process.identity ⟨true, true⟩)
  refine ⟨?_, fun process hprocess => ?_⟩
  · rw [List.map_map, Function.comp_def]
    simp only [hid]
    exact h.nodup
  · obtain ⟨listed, hlisted, rfl⟩ := List.mem_map.mp hprocess
    rw [hid]
    exact h.real listed hlisted

/-! ## One update -/

/-- The items show what they are to show, and the fake ones are known. -/
structure Shows (options : ProviderOptions) (s : ProcessProvider)
    (shown : List (Handle × BitVec 64)) : Prop where
  tidy : Tidy processItems (fun hashSet => ∃ t, hashSet = some t ∧
    HashItems.Inv (·.processId) hashProcessId false t) s.processHashSet
  items : ((processItems.items s.processHashSet).map (·.identity options)).Perm shown
  fakes : ∀ x ∈ shown, x.1 = dpcsProcessId ∨ x.1 = interruptsProcessId → x ∈ fakeIdentities options

def outcomeOf (options : ProviderOptions) (s : ProcessProvider) (u : ProviderUpdate)
    (processes : List ProcessInformation) (process : ProcessInformation) : PhProcessItem :=
  outcome (processProvider options s u (processes.map (fillIdle s))) process
    ((processItems.lookup s.processHashSet process.uniqueProcessId).filter
      (sameProcess options process))

variable {shown : List (Handle × BitVec 64)}

theorem identity_outcomeOf (h : Shows options s shown) :
    (outcomeOf options s u processes process).identity options = process.identity options := by
  rw [outcomeOf]
  cases hlookup : processItems.lookup s.processHashSet process.uniqueProcessId with
  | none =>
      show (createProcessItem options s process).identity options = _
      rw [PhProcessItem.identity, ProcessInformation.identity, createProcessItem]
      split <;> rfl
  | some item =>
      have hid : item.processId = process.uniqueProcessId :=
        ((lookup_iff HashItems.collection_lawful h.tidy).mp hlookup).2
      by_cases hsame : sameProcess options process item = true
      · rw [Option.filter_some, if_pos hsame, ← (sameProcess_iff hid).mp hsame]
        rw [sameProcess] at hsame
        show (updateProcessItem options item process).identity options = _
        rw [PhProcessItem.identity, PhProcessItem.identity, updateProcessItem]
        split
        · next hextension =>
            rw [if_pos hextension] at hsame
            rw [← of_decide_eq_true hsame]
        · rfl
      · rw [Option.filter_some, if_neg hsame]
        show (createProcessItem options s process).identity options = _
        rw [PhProcessItem.identity, ProcessInformation.identity, createProcessItem]
        split <;> rfl

theorem cycleTimeDelta_outcomeOf : (outcomeOf options s u processes process).cycleTimeDelta =
    ⟨process.cycleTime, cyclesTaken options s process⟩ := by
  rw [outcomeOf, cyclesTaken]
  cases processItems.lookup s.processHashSet process.uniqueProcessId with
  | none => simp [outcome, processProvider, createProcessItem, phUpdateDelta, phInitializeDelta]
  | some item =>
      by_cases hsame : sameProcess options process item = true
      · rw [Option.filter_some, if_pos hsame]
        simp [hsame, outcome, processProvider, updateProcessItem, phUpdateDelta]
      · rw [Option.filter_some, if_neg hsame]
        simp [hsame, outcome, processProvider, createProcessItem, phUpdateDelta,
          phInitializeDelta]

theorem Shows.found (h : Shows options s shown)
    (hitem : item ∈ processItems.items s.processHashSet)
    (hfound : (processProvider options s u (processes.map (fillIdle s))).found item = true)
    (hlisted : Listed processes) :
    item.processId ∈ (entries options s processes).map (·.uniqueProcessId) := by
  by_cases hfake : item.processId = dpcsProcessId ∨ item.processId = interruptsProcessId
  · have hshown := h.fakes _ (h.items.mem_iff.mp (List.mem_map_of_mem hitem)) hfake
    rw [id_entries]
    exact List.mem_map_of_mem (List.mem_append_right _ hshown)
  · rw [not_or] at hfake
    obtain ⟨process, hentry, -⟩ := (Option.any_eq_true _ _).mp hfound
    rw [processEntry, if_neg hfake.1, if_neg hfake.2] at hentry
    obtain ⟨hprocess, hid⟩ := (lookup_pidBuckets hlisted.fillIdle.nodup).mp hentry
    rw [← hid]
    exact List.mem_map_of_mem (List.mem_append_left _ hprocess)

/-- Of the items with the identifier of a process, its own is found. -/
theorem Shows.filter_found (h : Shows options s shown)
    (hlisted : Listed processes) (hprocess : process ∈ entries options s processes) :
    (processItems.lookup s.processHashSet process.uniqueProcessId).filter
        (processProvider options s u (processes.map (fillIdle s))).found =
      (processItems.lookup s.processHashSet process.uniqueProcessId).filter
        (sameProcess options process) := by
  cases hlookup : processItems.lookup s.processHashSet process.uniqueProcessId with
  | none => rfl
  | some item =>
      have hid : item.processId = process.uniqueProcessId :=
        ((lookup_iff HashItems.collection_lawful h.tidy).mp hlookup).2
      have hfound : (processProvider options s u (processes.map (fillIdle s))).found item =
          sameProcess options process item := by
        show (processEntry options s (processes.map (fillIdle s)) item).any
          (sameProcess options · item) = _
        rw [processEntry_eq hlisted.fillIdle hprocess hid]
        rfl
      rw [Option.filter_some, Option.filter_some, hfound]

theorem Shows.update (h : Shows options s shown)
    (hlisted : Listed processes) :
    Shows options (updateProcesses options s u processes).1 (identities options processes) ∧
    (processItems.items (updateProcesses options s u processes).1.processHashSet).Perm
      ((entries options s processes).map (outcomeOf options s u processes)) ∧
    Follows (·.processId) (keys processItems s.processHashSet)
      (updateProcesses options s u processes).2
      (keys processItems (updateProcesses options s u processes).1.processHashSet) := by
  have hlawful : (processProvider options s u (processes.map (fillIdle s))).Lawful processItems :=
    ⟨fun _ => rfl, fun _ _ => rfl⟩
  have hnodup : ((entries options s processes).map (·.uniqueProcessId)).Nodup := by
    rw [id_entries]
    exact hlisted.nodup_identities
  obtain ⟨htidy, hitems, hfollows⟩ := update_spec HashItems.collection_lawful hlawful
    h.tidy hnodup fun item hitem hfound => h.found hitem hfound hlisted
  have houtcome : (processItems.items
      (updateProcesses options s u processes).1.processHashSet).Perm
      ((entries options s processes).map (outcomeOf options s u processes)) :=
    hitems.trans (.of_eq (List.map_congr_left fun process hprocess =>
      congrArg _ (h.filter_found hlisted hprocess)))
  refine ⟨⟨htidy, ?_, fun x hx hfake => ?_⟩, houtcome, hfollows⟩
  · refine (houtcome.map _).trans (.of_eq ?_)
    rw [List.map_map, ← identity_entries (s := s)]
    exact List.map_congr_left fun process _ => identity_outcomeOf h
  · rcases List.mem_append.mp hx with hreal | hx
    · obtain ⟨process, hprocess, rfl⟩ := List.mem_map.mp hreal
      exact absurd hfake (not_or.mpr (hlisted.real process hprocess))
    · exact hx

/-! ## The cycles of an update -/

theorem cpuTotalCycleDelta_updateProcesses (hcycle : options.enableCycleCpuUsage = true) :
    (updateProcesses options s u processes).1.cpuTotalCycleDelta =
      orMax (((processes.map (fillIdle s)).map (cyclesTaken options s)).sum +
        s.cpuSystemCycleDelta.delta +
        ((updateProcesses options s u processes).2.map (finalCycles u)).sum) := by
  have hchanged : ∀ {hashSet : Option (HashItems PhProcessItem)}
      {provider : Provider PhProcessItem ProcessInformation Handle}
      {listed : List ProcessInformation},
      ((admitAll processItems provider hashSet listed).2.map (finalCycles u)).sum = 0 := by
    intro hashSet provider listed
    refine List.sum_eq_zero fun x hx => ?_
    obtain ⟨event, hevent, rfl⟩ := List.mem_map.mp hx
    have hkept := admitAll_ne_removed hevent
    cases event with
    | removed item => exact absurd rfl (hkept item)
    | added item => rfl
    | modified item => rfl
  show orMax (sysTotalCycleTime options s u _ _) = orMax (_ + ((_ ++ _ : List _).map _).sum)
  rw [sysTotalCycleTime, if_pos hcycle, List.map_append, List.sum_append, hchanged, add_zero]

/-- The items together show what the processes took, and the interrupts since they were counted. -/
theorem Shows.sum_delta (h : Shows options s shown)
    (hlisted : Listed processes) (hcycle : options.enableCycleCpuUsage = true)
    {counted : BitVec 64} (hcounted : (processItems.lookup s.processHashSet
      interruptsProcessId).elim 0 (·.cycleTimeDelta.value) = counted) :
    ((processItems.items (updateProcesses options s u processes).1.processHashSet).map
      (·.cycleTimeDelta.delta)).sum =
      ((processes.map (fillIdle s)).map (cyclesTaken options s)).sum +
        (s.cpuSystemCycleDelta.value - counted) := by
  have hinterrupts : cyclesTaken options s (interruptsProcessInformation options s) =
      s.cpuSystemCycleDelta.value - counted := by
    have hcycles : (interruptsProcessInformation options s).cycleTime =
        s.cpuSystemCycleDelta.value := if_pos hcycle
    have hprocess : (interruptsProcessInformation options s).uniqueProcessId =
        interruptsProcessId := rfl
    rw [cyclesTaken, hcycles, ← hcounted, hprocess]
    cases hlookup : processItems.lookup s.processHashSet interruptsProcessId with
    | none => simp
    | some item =>
        obtain ⟨hitem, hid⟩ :=
          (lookup_iff HashItems.collection_lawful h.tidy).mp hlookup
        have hfake := h.fakes _ (h.items.mem_iff.mp (List.mem_map_of_mem hitem)) (.inr hid)
        have hidentity : (interruptsProcessInformation options s).identity options ∈
            fakeIdentities options := by
          rw [← identity_fakeProcesses (s := s), fakeProcesses, if_pos hcycle]
          exact List.mem_cons_self
        rw [fakeIdentities, if_pos hcycle, List.mem_singleton] at hfake hidentity
        simp [(sameProcess_iff hid).mpr (hfake.trans hidentity.symm)]
  have hdelta : ∀ process, (outcomeOf options s u processes process).cycleTimeDelta.delta =
      cyclesTaken options s process := fun process =>
    congrArg Uint64Delta.delta cycleTimeDelta_outcomeOf
  have hitems := (h.update (u := u) hlisted).2.1.map (·.cycleTimeDelta.delta)
  rw [hitems.sum_eq, List.map_map, Function.comp_def]
  simp only [hdelta]
  rw [entries, fakeProcesses, if_pos hcycle, List.map_append, List.sum_append, List.map_singleton,
    List.sum_singleton, hinterrupts]

/-- The interrupts are counted to where the system was asked. -/
theorem Shows.counted (h : Shows options s shown)
    (hlisted : Listed processes) (hcycle : options.enableCycleCpuUsage = true) :
    (processItems.lookup (updateProcesses options s u processes).1.processHashSet
      interruptsProcessId).elim 0 (·.cycleTimeDelta.value) = s.cpuSystemCycleDelta.value := by
  obtain ⟨hshows, hitems, -⟩ := h.update (u := u) hlisted
  have hentry : interruptsProcessInformation options s ∈ entries options s processes := by
    rw [entries, fakeProcesses, if_pos hcycle]
    exact List.mem_append_right _ List.mem_cons_self
  have hitem := hitems.mem_iff.mpr (List.mem_map_of_mem hentry)
  have hidentity : (outcomeOf options s u processes (interruptsProcessInformation options s)).identity
      options = _ := identity_outcomeOf h
  have hid := congrArg Prod.fst hidentity
  have hlookup : processItems.lookup (updateProcesses options s u processes).1.processHashSet
      interruptsProcessId = some (outcomeOf options s u processes _) :=
    (lookup_iff HashItems.collection_lawful hshows.tidy).mpr ⟨hitem, hid⟩
  rw [hlookup]
  show (outcomeOf options s u processes _).cycleTimeDelta.value = _
  rw [cycleTimeDelta_outcomeOf]
  exact if_pos hcycle

/-! ## Runs -/

/-- What is to be shown after some updates: the processes of the last one that got a list. -/
def lastIdentities (options : ProviderOptions) (us : List ProviderUpdate) :
    List (Handle × BitVec 64) :=
  (us.filterMap (·.processes)).getLast?.elim [] (identities options)

def lastAsked (us : List ProviderUpdate) : BitVec 64 := us.getLast?.elim 0 (·.systemCycleTime)

def lastCounted (us : List ProviderUpdate) : BitVec 64 :=
  (us.filter (·.processes.isSome)).getLast?.elim 0 (·.systemCycleTime)

structure RunInv (options : ProviderOptions) (us : List ProviderUpdate)
    (r : ProcessProvider × List (Event PhProcessItem)) : Prop where
  shows : Shows options r.1 (lastIdentities options us)
  follows : Follows (·.processId) ∅ r.2 (keys processItems r.1.processHashSet)
  asked : options.enableCycleCpuUsage = true → r.1.cpuSystemCycleDelta.value = lastAsked us
  counted : options.enableCycleCpuUsage = true → (processItems.lookup r.1.processHashSet
    interruptsProcessId).elim 0 (·.cycleTimeDelta.value) = lastCounted us

theorem processHashSet_prepareUpdate :
    (prepareUpdate options s u).processHashSet = s.processHashSet := by
  rw [prepareUpdate]
  split <;> split <;> rfl

theorem cpuSystemCycleDelta_prepareUpdate (hcycle : options.enableCycleCpuUsage = true) :
    (prepareUpdate options s u).cpuSystemCycleDelta =
      phUpdateDelta s.cpuSystemCycleDelta u.systemCycleTime := by
  rw [prepareUpdate, if_pos hcycle]
  split <;> rfl

theorem Shows.prepare (h : Shows options s shown) :
    Shows options (prepareUpdate options s u) shown := by
  refine ⟨?_, ?_, h.fakes⟩
  · rw [processHashSet_prepareUpdate]
    exact h.tidy
  · rw [processHashSet_prepareUpdate]
    exact h.items

theorem runInv_nil : RunInv options [] (processProviderInitialization, []) := by
  have hcreate : ∀ n, processItems.items (some (.create n)) = [] := HashItems.items_create
  have hitems : processItems.items processProviderInitialization.processHashSet = [] :=
    hcreate 256
  have hkeys : keys processItems processProviderInitialization.processHashSet = ∅ := by
    simp [keys, hitems]
  have htidy : Tidy processItems (fun hashSet => ∃ t, hashSet = some t ∧
      HashItems.Inv (·.processId) hashProcessId false t)
      processProviderInitialization.processHashSet := by
    refine ⟨⟨.create 256, rfl, HashItems.inv_create 8⟩, ?_⟩
    rw [hitems]
    exact List.nodup_nil
  refine ⟨⟨htidy, ?_, fun x hx => ?_⟩, ?_, fun _ => rfl, fun _ => ?_⟩
  · rw [hitems]
    exact .nil
  · cases hx
  · rw [hkeys]
    exact .nil _
  · cases hlookup : processItems.lookup processProviderInitialization.processHashSet
      interruptsProcessId with
    | none => rfl
    | some item =>
        have hitem := ((lookup_iff HashItems.collection_lawful htidy).mp hlookup).1
        rw [hitems] at hitem
        cases hitem

variable {us : List ProviderUpdate}

theorem RunInv.step {r : ProcessProvider × List (Event PhProcessItem)}
    (h : RunInv options us r)
    (hlisted : ∀ processes, u.processes = some processes → Listed processes) :
    RunInv options (us ++ [u]) ((phProcessProviderUpdate options r.1 u).1,
      r.2 ++ (phProcessProviderUpdate options r.1 u).2) := by
  have hprepare := h.shows.prepare (u := u)
  have hset : (prepareUpdate options r.1 u).processHashSet = _ := processHashSet_prepareUpdate
  have hasked : options.enableCycleCpuUsage = true →
      (prepareUpdate options r.1 u).cpuSystemCycleDelta.value = lastAsked (us ++ [u]) := by
    intro hcycle
    rw [cpuSystemCycleDelta_prepareUpdate hcycle]
    simp [phUpdateDelta, lastAsked]
  rw [phProcessProviderUpdate]
  cases hprocesses : u.processes with
  | none =>
      have hidentities : lastIdentities options (us ++ [u]) = lastIdentities options us := by
        simp [lastIdentities, hprocesses]
      have hcounted : lastCounted (us ++ [u]) = lastCounted us := by
        simp [lastCounted, hprocesses]
      refine ⟨hidentities ▸ hprepare, ?_, hasked, fun hcycle => ?_⟩
      · show Follows _ ∅ (r.2 ++ []) (keys processItems (prepareUpdate options r.1 u).processHashSet)
        rw [List.append_nil, hset]
        exact h.follows
      · show (processItems.lookup (prepareUpdate options r.1 u).processHashSet _).elim 0 _ = _
        rw [hset, hcounted]
        exact h.counted hcycle
  | some processes =>
      have hidentities : lastIdentities options (us ++ [u]) = identities options processes := by
        simp [lastIdentities, hprocesses]
      have hcounted : lastCounted (us ++ [u]) = lastAsked (us ++ [u]) := by
        simp [lastCounted, lastAsked, hprocesses]
      obtain ⟨hshows, -, hfollows⟩ := hprepare.update (u := u) (hlisted processes hprocesses)
      rw [hset] at hfollows
      refine ⟨hidentities ▸ hshows, h.follows.append hfollows, hasked, fun hcycle => ?_⟩
      rw [hcounted, ← hasked hcycle]
      exact hprepare.counted (hlisted processes hprocesses) hcycle

theorem runInv
    (h : ∀ u ∈ us, ∀ processes, u.processes = some processes → Listed processes) :
    RunInv options us (phProcessProviderRun options us) := by
  induction us using List.reverseRecOn with
  | nil => exact runInv_nil
  | append_singleton us u ih =>
      have hstep := (ih fun v hv => h v (List.mem_append_left _ hv)).step
        (h u (List.mem_append_right _ List.mem_cons_self))
      rw [phProcessProviderRun, List.foldl_append]
      exact hstep

theorem phProcessProviderRun_shows
    (h : ∀ u ∈ us, ∀ processes, u.processes = some processes → Listed processes) :
    ∃ hashSet, (phProcessProviderRun options us).1.processHashSet = some hashSet ∧
      (hashSet.hashSet.flatten.map (·.item.identity options)).Perm (lastIdentities options us) ∧
      Follows (·.processId) ∅ (phProcessProviderRun options us).2
        {id | ∃ identity ∈ lastIdentities options us, identity.1 = id} := by
  have hrun : RunInv options us _ := runInv h
  obtain ⟨hashSet, hsome, -⟩ := hrun.shows.tidy.inv
  have hitems := hrun.shows.items
  have hfollows := hrun.follows
  have hkeys : keys processItems (phProcessProviderRun options us).1.processHashSet =
      {id | ∃ identity ∈ lastIdentities options us, identity.1 = id} := by
    simp only [← hitems.mem_iff]
    ext id
    constructor
    · rintro ⟨item, hitem, rfl⟩
      exact ⟨_, List.mem_map_of_mem hitem, rfl⟩
    · rintro ⟨identity, hidentity, rfl⟩
      obtain ⟨item, hitem, rfl⟩ := List.mem_map.mp hidentity
      exact ⟨item, hitem, rfl⟩
  rw [hkeys] at hfollows
  rw [hsome] at hitems
  refine ⟨hashSet, hsome, ?_, hfollows⟩
  have hmap : (hashSet.hashSet.flatten.map (·.item)).map (·.identity options) =
      hashSet.hashSet.flatten.map (·.item.identity options) := List.map_map
  rw [← hmap]
  exact hitems

theorem phProcessProviderUpdate_cycles
    (hcycle : options.enableCycleCpuUsage = true)
    (h : ∀ u ∈ us, ∀ processes, u.processes = some processes → Listed processes)
    (hu : u.processes = some processes) (hlisted : Listed processes) :
    (phProcessProviderUpdate options (phProcessProviderRun options us).1 u).1.cpuTotalCycleDelta =
      orMax (((processItems.items (phProcessProviderUpdate options
          (phProcessProviderRun options us).1 u).1.processHashSet).map
            (·.cycleTimeDelta.delta)).sum +
        ((phProcessProviderUpdate options (phProcessProviderRun options us).1 u).2.map
          (finalCycles u)).sum - (lastAsked us - lastCounted us)) := by
  have hrun : RunInv options us _ := runInv h
  generalize phProcessProviderRun options us = r at hrun ⊢
  have hdelta := cpuSystemCycleDelta_prepareUpdate (s := r.1) (u := u) hcycle
  have hcounted := hrun.counted hcycle
  have hset : (prepareUpdate options r.1 u).processHashSet = _ := processHashSet_prepareUpdate
  rw [← hset] at hcounted
  rw [phProcessProviderUpdate, hu]
  show (updateProcesses options (prepareUpdate options r.1 u) u processes).1.cpuTotalCycleDelta =
    orMax (((processItems.items (updateProcesses options (prepareUpdate options r.1 u) u
      processes).1.processHashSet).map _).sum + _ - _)
  rw [cpuTotalCycleDelta_updateProcesses hcycle,
    (hrun.shows.prepare (u := u)).sum_delta hlisted hcycle hcounted, hdelta,
    ← hrun.asked hcycle]
  refine congrArg orMax ?_
  show _ + (u.systemCycleTime - r.1.cpuSystemCycleDelta.value) + _ =
    _ + (u.systemCycleTime - lastCounted us) + _ - _
  ring

def answered (processes : Option (List ProcessInformation)) (systemCycleTime : BitVec 64) :
    ProviderUpdate := ⟨processes, 0, systemCycleTime, fun _ => none, fun _ _ => false⟩

/-- The second of these updates gets no list, and then the identifier 4 has been used again. -/
def reusedUpdates : List ProviderUpdate :=
  [answered (some [⟨0, 0, 0, 0⟩, ⟨4, 1, 0, 50⟩]) 10, answered none 17]

def reusedProcesses : List ProcessInformation := [⟨0, 0, 0, 0⟩, ⟨8, 2, 0, 30⟩, ⟨4, 3, 0, 20⟩]

theorem listed_reusedProcesses : Listed reusedProcesses :=
  ⟨by decide, by decide⟩

theorem listed_reusedUpdates :
    ∀ u ∈ reusedUpdates, ∀ processes, u.processes = some processes → Listed processes := by
  intro u hu processes h
  rcases List.mem_pair.mp hu with rfl | rfl
  · obtain rfl := Option.some.inj h
    exact ⟨by decide, by decide⟩
  · cases h

theorem phProcessProviderRun_shows_reused :
    lastIdentities ⟨true, false⟩ (reusedUpdates ++ [answered reusedProcesses 25]) =
      [(0, 0), (8, 2), (4, 3), (interruptsProcessId, 0)] ∧
    ∃ hashSet, (phProcessProviderRun ⟨true, false⟩
        (reusedUpdates ++ [answered reusedProcesses 25])).1.processHashSet = some hashSet ∧
      (hashSet.hashSet.flatten.map (·.item.identity ⟨true, false⟩)).Perm
        (lastIdentities ⟨true, false⟩ (reusedUpdates ++ [answered reusedProcesses 25])) ∧
      Follows (·.processId) ∅ (phProcessProviderRun ⟨true, false⟩
          (reusedUpdates ++ [answered reusedProcesses 25])).2
        {id | ∃ identity ∈ lastIdentities ⟨true, false⟩
          (reusedUpdates ++ [answered reusedProcesses 25]), identity.1 = id} := by
  refine ⟨rfl, phProcessProviderRun_shows fun u hu processes h => ?_⟩
  rcases List.mem_append.mp hu with hu | hu
  · exact listed_reusedUpdates u hu processes h
  · rw [List.mem_singleton.mp hu] at h
    rw [← Option.some.inj h]
    exact listed_reusedProcesses

theorem phProcessProviderUpdate_cycles_reused :
    lastAsked reusedUpdates - lastCounted reusedUpdates = 7 ∧
    (phProcessProviderUpdate ⟨true, false⟩ (phProcessProviderRun ⟨true, false⟩ reusedUpdates).1
      (answered reusedProcesses 25)).1.cpuTotalCycleDelta =
      orMax (((processItems.items (phProcessProviderUpdate ⟨true, false⟩
          (phProcessProviderRun ⟨true, false⟩ reusedUpdates).1
          (answered reusedProcesses 25)).1.processHashSet).map (·.cycleTimeDelta.delta)).sum +
        ((phProcessProviderUpdate ⟨true, false⟩ (phProcessProviderRun ⟨true, false⟩
          reusedUpdates).1 (answered reusedProcesses 25)).2.map
            (finalCycles (answered reusedProcesses 25))).sum -
        (lastAsked reusedUpdates - lastCounted reusedUpdates)) :=
  ⟨rfl, phProcessProviderUpdate_cycles rfl listed_reusedUpdates rfl listed_reusedProcesses⟩

end SystemInformer.App
