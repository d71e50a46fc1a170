import SystemInformer.PhLib.HashSet

/-!
# The process provider (`procprv.c`)

Each update asks the system for its processes. Process items whose process is gone, or whose
process identifier now belongs to another process, are removed; then every process updates its
item or gets one. The processes that stand for interrupts and for deferred procedure calls are
not in the list of the system and are added to it.

The cycles of all processes are not known, so the total of an update is the sum of what each
process took since the last one. It is taken before the items change, from the items that are
there, from what the removed ones took to their end, and from the cycles of the system itself.

What an update asks the system is `ProviderUpdate`. Left out of the items is what is shown and
neither decides which items there are nor how their cycles are counted.
-/

namespace SystemInformer.App

open Reconcile PhLib

abbrev Handle := BitVec 64

/-- A `SYSTEM_PROCESS_INFORMATION` and its extension. -/
structure ProcessInformation where
  uniqueProcessId : Handle
  createTime : BitVec 64
  processSequenceNumber : BitVec 64
  cycleTime : BitVec 64
  deriving DecidableEq

structure Uint64Delta where
  value : BitVec 64
  delta : BitVec 64
  deriving DecidableEq

def phInitializeDelta : Uint64Delta := ⟨0, 0⟩

def phUpdateDelta (dltMgr : Uint64Delta) (newValue : BitVec 64) : Uint64Delta :=
  ⟨newValue, newValue - dltMgr.value⟩

structure PhProcessItem where
  processId : Handle
  createTime : BitVec 64
  processSequenceNumber : BitVec 64
  cycleTimeDelta : Uint64Delta
  timeSequenceNumber : ULong
  deriving DecidableEq

def systemIdleProcessId : Handle := 0
def dpcsProcessId : Handle := -2
def interruptsProcessId : Handle := -3

/-- `PhEnableCycleCpuUsage` and `PhEnableProcessExtension`. -/
structure ProviderOptions where
  enableCycleCpuUsage : Bool
  enableProcessExtension : Bool

structure ProviderUpdate where
  /-- `none` when `PhEnumProcesses` fails. -/
  processes : Option (List ProcessInformation)
  idleCycleTime : BitVec 64
  systemCycleTime : BitVec 64
  /-- `PhGetProcessCycleTime` on the handle of a removed item, if there is one. -/
  finalCycleTime : PhProcessItem → Option (BitVec 64)
  /-- Whether anything else about a process changed. -/
  modified : PhProcessItem → ProcessInformation → Bool

structure ProcessProvider where
  processHashSet : Option (HashItems PhProcessItem)
  cpuIdleCycleDelta : Uint64Delta
  cpuSystemCycleDelta : Uint64Delta
  cpuTotalCycleDelta : BitVec 64
  timeSequenceNumber : ULong
  runCount : ULong

def processProviderInitialization : ProcessProvider where
  processHashSet := some (.create 256)
  cpuIdleCycleDelta := phInitializeDelta
  cpuSystemCycleDelta := phInitializeDelta
  cpuTotalCycleDelta := 0
  timeSequenceNumber := 0
  runCount := 0

/-- `HandleToUlong(ProcessId) / 4`. -/
def hashProcessId (processId : Handle) : ULong := processId.setWidth 32 / 4

/-- `PhProcessHashSet` with `PhpLookupProcessItem`, `PhpAddProcessItem` and
`PhpRemoveProcessItem`. -/
abbrev processItems : Collection (Option (HashItems PhProcessItem)) PhProcessItem Handle :=
  HashItems.collection (·.processId) hashProcessId false

section

variable (options : ProviderOptions) (s : ProcessProvider) (u : ProviderUpdate)

def phpUpdateCpuCycleInformation : ProcessProvider :=
  { s with
    cpuIdleCycleDelta := phUpdateDelta s.cpuIdleCycleDelta u.idleCycleTime
    cpuSystemCycleDelta := phUpdateDelta s.cpuSystemCycleDelta u.systemCycleTime }

/-- What tells two processes with one identifier apart. -/
def sameProcess (process : ProcessInformation) (item : PhProcessItem) : Bool :=
  if options.enableProcessExtension then
    process.processSequenceNumber = item.processSequenceNumber
  else process.createTime = item.createTime

def dpcsProcessInformation : ProcessInformation := ⟨dpcsProcessId, 0, 0, 0⟩

def interruptsProcessInformation : ProcessInformation :=
  ⟨interruptsProcessId, 0, 0,
    if options.enableCycleCpuUsage then s.cpuSystemCycleDelta.value else 0⟩

def fakeProcesses : List ProcessInformation :=
  if options.enableCycleCpuUsage then [interruptsProcessInformation options s]
  else [dpcsProcessInformation, interruptsProcessInformation options s]

def fillIdle (process : ProcessInformation) : ProcessInformation :=
  if process.uniqueProcessId = systemIdleProcessId then
    { process with cycleTime := s.cpuIdleCycleDelta.value }
  else process

/-- `pidBuckets`, chained through `UniqueProcessKey`. -/
def pidBuckets (processes : List ProcessInformation) : HashItems ProcessInformation :=
  processes.foldl (HashItems.add (·.uniqueProcessId) hashProcessId false) (.create 64)

def processEntry (processes : List ProcessInformation) (item : PhProcessItem) :
    Option ProcessInformation :=
  if item.processId = dpcsProcessId then some dpcsProcessInformation
  else if item.processId = interruptsProcessId then some (interruptsProcessInformation options s)
  else HashItems.lookup (·.uniqueProcessId) hashProcessId (pidBuckets processes) item.processId

/-- `PhCreateProcessItem`, what is filled in, and the first values of the deltas. -/
def createProcessItem (process : ProcessInformation) : PhProcessItem where
  processId := process.uniqueProcessId
  createTime := process.createTime
  processSequenceNumber :=
    if options.enableProcessExtension then process.processSequenceNumber else 0
  cycleTimeDelta := phUpdateDelta phInitializeDelta process.cycleTime
  timeSequenceNumber := s.timeSequenceNumber

def updateProcessItem (item : PhProcessItem) (process : ProcessInformation) : PhProcessItem :=
  { item with
    processSequenceNumber :=
      if options.enableProcessExtension then process.processSequenceNumber
      else item.processSequenceNumber
    cycleTimeDelta := phUpdateDelta item.cycleTimeDelta process.cycleTime
    timeSequenceNumber := item.timeSequenceNumber + 1 }

def processProvider (processes : List ProcessInformation) :
    Provider PhProcessItem ProcessInformation Handle where
  entryKey := (·.uniqueProcessId)
  found item := (processEntry options s processes item).any (sameProcess options · item)
  create := createProcessItem options s
  modify item process := (updateProcessItem options item process, u.modified item process)

/-- What a process took since its item was updated. -/
def cyclesTaken (process : ProcessInformation) : BitVec 64 :=
  match processItems.lookup s.processHashSet process.uniqueProcessId with
  | some item =>
      if sameProcess options process item then process.cycleTime - item.cycleTimeDelta.value
      else process.cycleTime
  | none => process.cycleTime

def finalCycles : Event PhProcessItem → BitVec 64
  | .removed item =>
      (u.finalCycleTime item).elim 0 fun cycleTime => cycleTime - item.cycleTimeDelta.value
  | _ => 0

/-- `sysTotalCycleTime`, when the dead processes have been removed. -/
def sysTotalCycleTime (processes : List ProcessInformation) (removed : List (Event PhProcessItem)) :
    BitVec 64 :=
  if options.enableCycleCpuUsage then
    (processes.map (cyclesTaken options s)).sum + s.cpuSystemCycleDelta.delta +
      (removed.map (finalCycles u)).sum
  else 0

def orMax (total : BitVec 64) : BitVec 64 := if total = 0 then BitVec.allOnes 64 else total

def updateProcesses (processes : List ProcessInformation) :
    ProcessProvider × List (Event PhProcessItem) :=
  let processes := processes.map (fillIdle s)
  let provider := processProvider options s u processes
  let (hashSet, removed) := sweep processItems provider s.processHashSet
  let total := orMax (sysTotalCycleTime options s u processes removed)
  let (hashSet, changed) :=
    admitAll processItems provider hashSet (processes ++ fakeProcesses options s)
  ({ s with
      processHashSet := hashSet
      cpuTotalCycleDelta := total
      runCount := s.runCount + 1 }, removed ++ changed)

def prepareUpdate : ProcessProvider :=
  let s := if options.enableCycleCpuUsage then phpUpdateCpuCycleInformation s u else s
  if s.runCount ≠ 0 then { s with timeSequenceNumber := s.timeSequenceNumber + 1 } else s

def phProcessProviderUpdate : ProcessProvider × List (Event PhProcessItem) :=
  let s := prepareUpdate options s u
  match u.processes with
  | none => (s, [])
  | some processes => updateProcesses options s u processes

end

/-- The provider thread: updates from the beginning, and the events of all of them. -/
def phProcessProviderRun (options : ProviderOptions) (us : List ProviderUpdate) :
    ProcessProvider × List (Event PhProcessItem) :=
  us.foldl (fun (s, events) u =>
    let (s, events') := phProcessProviderUpdate options s u
    (s, events ++ events')) (processProviderInitialization, [])

end SystemInformer.App
