import SystemInformer.Driver.CidPopulate

/-!
# Populating depends on what exited last

The loops of `KphCidPopulate` do what they should whatever the lookups answer: every
reference is given back on every path through a turn, an entry once assigned is never
assigned again, and an item is tracked exactly if its own calls were successful. A process
or thread that has exited is passed over with `continue`.

But the lookups and the exit test store their answers in the variable that holds the
status of the function. So what the function returns, and whether it goes on to verify and
protect the processes, is decided by the last of these calls alone. The calls a turn makes
depend on the table only through the question whether the process got its context.
-/

namespace SystemInformer.Driver

/-! ## What is asked of the tracking -/

/-- The lookup and the exit test of a process; the system process needs none. -/
def ProcessSnapshot.Live (system : UInt64) (p : ProcessSnapshot) : Prop :=
  p.uniqueProcessId ≠ 0 ∧
    (p.uniqueProcessId = system ∨ (ntSuccess p.lookup ∧ p.wait = statusTimeout))

def ThreadSnapshot.Live (t : ThreadSnapshot) : Prop := ntSuccess t.lookup ∧ t.terminating = false

/-- The allocations for a context of `cid`, whose entry is `id`. -/
def TrackEnv.Succeeds (env : TrackEnv) (cid : UInt64) (id : Fin cidMax) : Prop :=
  getCidEntry cid env = some id ∧ ntSuccess env.createObject

/-- The context is of a type, for a CID and an object. -/
def CidContext.IsFor (c : CidContext) (type : ContextType) (cid : UInt64) (object : Nat) : Prop :=
  c.type = type ∧ c.cid = cid ∧ c.object = object

def ProcessSnapshot.Tracked (p : ProcessSnapshot) (table : ContextTable) : Prop :=
  ∃ id c, getCidEntry p.uniqueProcessId p.track = some id ∧ table id = some c ∧
    c.type = .process

/-- An item of the snapshot, whose calls were all successful, stands behind the context. -/
inductive Qualified (system : UInt64) (snapshot : List ProcessSnapshot) (table : ContextTable)
    (id : Fin cidMax) (c : CidContext) : Prop where
  | process (p : ProcessSnapshot) (hmem : p ∈ snapshot) (hlive : p.Live system)
      (htrack : p.track.Succeeds p.uniqueProcessId id)
      (hfor : c.IsFor .process p.uniqueProcessId p.object)
  | thread (p : ProcessSnapshot) (t : ThreadSnapshot) (hmem : p ∈ snapshot)
      (hlive : p.Live system) (htracked : p.Tracked table) (hthread : t ∈ p.threads)
      (htlive : t.Live) (htrack : t.track.Succeeds t.uniqueThread id)
      (hfor : c.IsFor .thread t.uniqueThread t.object)

/-- The processes and threads tracked are those whose lookup, liveness test and allocation
succeeded. An id that two items share is tracked for the first of them. -/
structure TracksExactly (system : UInt64) (snapshot : List ProcessSnapshot)
    (before after : ContextTable) : Prop where
  kept : ∀ id c, before id = some c → after id = some c
  sound : ∀ id c, after id = some c → before id = some c ∨ Qualified system snapshot after id c
  process : ∀ p ∈ snapshot, p.Live system → ∀ id, p.track.Succeeds p.uniqueProcessId id →
    ∃ c, after id = some c
  thread : ∀ p ∈ snapshot, p.Live system → ∀ id, p.track.Succeeds p.uniqueProcessId id →
    (∀ c, after id = some c → c.type = .process) → ∀ t ∈ p.threads, t.Live →
    ∀ id', t.track.Succeeds t.uniqueThread id' → ∃ c, after id' = some c

def balance (trace : List ReferenceEvent) (o : PopulateObject) : Int :=
  trace.count (.reference o) - trace.count (.dereference o)

structure PopulateMeets (system : UInt64) (snapshot : List ProcessSnapshot) (t : Tracking)
    (r : PopulateResult) : Prop where
  success : ntSuccess r.status
  tracks : TracksExactly system snapshot t.table r.tracking.table
  released : ∀ o, balance r.trace o = 0
  populated : t.initialized = true → r.tracking.populated = true
  verified : ∀ c, c ∈ r.verified ↔ c.type = .process ∧ ∃ id, r.tracking.table id = some c

/-! ## The condition -/

/-- Whether `KphpTrackContext` answers a context for the process. -/
def ProcessSnapshot.obtains (table : ContextTable) (p : ProcessSnapshot) : Bool :=
  match getCidEntry p.uniqueProcessId p.track with
  | none => false
  | some id =>
      match table id with
      | some context => context.type = .process
      | none => ntSuccess p.track.createObject

/-- What the lookups of the threads answer, if they are made. -/
def ProcessSnapshot.threadOutcomes (table : ContextTable) (p : ProcessSnapshot) :
    List NtStatus :=
  if p.obtains table then p.threads.map ThreadSnapshot.lookup else []

/-- The answers of the lookups and exit tests made for a process and its threads. -/
def ProcessSnapshot.outcomes (system : UInt64) (table : ContextTable) (p : ProcessSnapshot) :
    List NtStatus :=
  if p.uniqueProcessId = 0 then []
  else if p.uniqueProcessId = system then p.threadOutcomes table
  else if ¬ ntSuccess p.lookup then [p.lookup]
  else if p.wait ≠ statusTimeout then [p.lookup, p.wait]
  else [p.lookup, p.wait] ++ p.threadOutcomes table

/-- The answers of all lookups and exit tests that are made, in their order. -/
def snapshotOutcomes (system : UInt64) (s : PopulateState) : List ProcessSnapshot → List NtStatus
  | [] => []
  | p :: rest => p.outcomes system s.table ++ snapshotOutcomes system (populateProcess system s p) rest

/-- The last lookup or exit test was successful, or none was made; `status` is that of the
query. -/
def LastOutcomeSucceeds (t : Tracking) (env : PopulateEnv) (status : NtStatus) : Prop :=
  ∀ last, (snapshotOutcomes env.systemProcessId ⟨t.table, t.created, status, []⟩
    env.snapshot).getLast? = some last → ntSuccess last

/-! ## One context -/

section

variable {s : PopulateState} {cid : UInt64} {type : ContextType} {object : Nat} {env : TrackEnv}

def PopulateState.held (s : PopulateState) (o : PopulateObject) : Int := balance s.trace o

@[simp] theorem held_reference {o o' : PopulateObject} :
    (s.reference o').held o = s.held o + if o' = o then 1 else 0 := by
  by_cases h : o' = o
  · simp [PopulateState.held, PopulateState.reference, balance, List.count_append, h]
    omega
  · simp [PopulateState.held, PopulateState.reference, balance, List.count_append, h]

@[simp] theorem held_dereference {o o' : PopulateObject} :
    (s.dereference o').held o = s.held o - if o' = o then 1 else 0 := by
  by_cases h : o' = o
  · simp [PopulateState.held, PopulateState.dereference, balance, List.count_append, h]
    omega
  · simp [PopulateState.held, PopulateState.dereference, balance, List.count_append, h]

@[simp] theorem held_setStatus {status : NtStatus} {o : PopulateObject} :
    (s.setStatus status).held o = s.held o := rfl

@[simp] theorem held_createContext {id : Fin cidMax} {c : CidContext} {o : PopulateObject} :
    (s.createContext id c).held o = s.held o + if .context c.number = o then 1 else 0 := by
  by_cases h : PopulateObject.context c.number = o
  · simp [PopulateState.held, PopulateState.createContext, balance, List.count_append, h]
    omega
  · simp [PopulateState.held, PopulateState.createContext, balance, List.count_append, h]

def heldFor (answer : Option CidContext) (o : PopulateObject) : Int :=
  match answer with
  | some c => if .context c.number = o then 1 else 0
  | none => 0

theorem kphpTrackContext_held {o : PopulateObject} :
    (kphpTrackContext s cid type object env).1.held o =
      s.held o + heldFor (kphpTrackContext s cid type object env).2 o := by
  rw [kphpTrackContext]
  split
  · simp [heldFor]
  · split
    · split <;> simp [heldFor]
    · split <;> simp [heldFor]

theorem kphpTrackContext_status :
    (kphpTrackContext s cid type object env).1.status = s.status := by
  rw [kphpTrackContext]
  split
  · rfl
  · split
    · split <;> rfl
    · split <;> rfl

theorem kphpTrackContext_table (s : PopulateState) (cid : UInt64) (type : ContextType)
    (object : Nat) (env : TrackEnv) :
    (kphpTrackContext s cid type object env).1.table = s.table ∨
      ∃ id, env.Succeeds cid id ∧ s.table id = none ∧
        (kphpTrackContext s cid type object env).1.table =
          Function.update s.table id (some ⟨s.created, type, cid, object⟩) := by
  rw [kphpTrackContext]
  split
  · exact Or.inl rfl
  · next id hid =>
      split
      · split
        · exact Or.inl rfl
        · exact Or.inl rfl
      · next hfree =>
          split
          · exact Or.inl rfl
          · next hcreate => exact Or.inr ⟨id, ⟨hid, not_not.mp hcreate⟩, hfree, rfl⟩

theorem kphpTrackContext_kept {id : Fin cidMax} {c : CidContext} (h : s.table id = some c) :
    (kphpTrackContext s cid type object env).1.table id = some c := by
  rcases kphpTrackContext_table s cid type object env with htable | ⟨id', -, hfree, htable⟩
  · rw [htable, h]
  · rw [htable, Function.update_of_ne, h]
    intro heq
    rw [heq, hfree] at h
    cases h

theorem kphpTrackContext_answer {c : CidContext}
    (h : (kphpTrackContext s cid type object env).2 = some c) :
    c.type = type ∧ ∃ id, getCidEntry cid env = some id ∧
      (kphpTrackContext s cid type object env).1.table id = some c := by
  cases hid : getCidEntry cid env with
  | none => simp [kphpTrackContext, hid] at h
  | some id =>
      cases hused : s.table id with
      | some context =>
          by_cases htype : context.type = type
          · simp only [kphpTrackContext, hid, hused, htype, ne_eq, not_true_eq_false, if_false,
              Option.some.injEq] at h ⊢
            subst h
            exact ⟨htype, id, rfl, hused⟩
          · simp [kphpTrackContext, hid, hused, htype] at h
      | none =>
          by_cases hcreate : ntSuccess env.createObject
          · simp only [kphpTrackContext, hid, hused, hcreate, not_true_eq_false, if_false,
              Option.some.injEq] at h ⊢
            subst h
            exact ⟨rfl, id, rfl, Function.update_self ..⟩
          · simp [kphpTrackContext, hid, hused, hcreate] at h

/-- With its allocations, the entry has a context; and if that is of the type asked for,
it is answered. -/
theorem kphpTrackContext_succeeds (s : PopulateState) (type : ContextType) (object : Nat)
    {id : Fin cidMax} (h : env.Succeeds cid id) :
    ∃ c, (kphpTrackContext s cid type object env).1.table id = some c ∧
      (c.type = type → (kphpTrackContext s cid type object env).2 = some c) := by
  obtain ⟨hid, hcreate⟩ := h
  rw [kphpTrackContext]
  simp only [hid]
  cases hused : s.table id with
  | some context =>
      dsimp only
      split
      · next htype => exact ⟨context, hused, fun h => absurd h htype⟩
      · exact ⟨context, hused, fun _ => rfl⟩
  | none =>
      dsimp only
      rw [if_neg (not_not.mpr hcreate)]
      exact ⟨_, Function.update_self .., fun _ => rfl⟩

end

/-! ## The loop over the threads -/

section

variable {s : PopulateState} {t : ThreadSnapshot} {threads : List ThreadSnapshot}

theorem populateThread_status : (populateThread s t).status = t.lookup := by
  rw [populateThread]
  split
  · rfl
  · split
    · rfl
    · dsimp only
      split
      · exact kphpTrackContext_status
      · exact kphpTrackContext_status

theorem populateThread_held {o : PopulateObject} : (populateThread s t).held o = s.held o := by
  rw [populateThread]
  split
  · rfl
  · split
    · simp
    · dsimp only
      split
      · next h => simp [kphpTrackContext_held, h, heldFor]
      · next c h =>
          simp only [held_dereference, kphpTrackContext_held, h, heldFor, held_reference,
            held_setStatus]
          omega

theorem populateThread_table (s : PopulateState) (t : ThreadSnapshot) :
    (¬ t.Live ∧ (populateThread s t).table = s.table) ∨
      (t.Live ∧ ∃ s₁ : PopulateState, s₁.table = s.table ∧ (populateThread s t).table =
        (kphpTrackContext s₁ t.uniqueThread .thread t.object t.track).1.table) := by
  rw [populateThread]
  split
  · next hlookup => exact Or.inl ⟨fun h => hlookup h.1, rfl⟩
  · next hlookup =>
      split
      · next hterm => exact Or.inl ⟨fun h => by simp [h.2] at hterm, rfl⟩
      · next hterm =>
          refine Or.inr ⟨⟨not_not.mp hlookup, by simpa using hterm⟩,
            (s.setStatus t.lookup).reference (.object t.object), rfl, ?_⟩
          dsimp only
          split
          · rfl
          · rfl

theorem populateThread_kept {id : Fin cidMax} {c : CidContext} (h : s.table id = some c) :
    (populateThread s t).table id = some c := by
  rcases populateThread_table s t with ⟨-, htable⟩ | ⟨-, s₁, hsame, htable⟩
  · rw [htable, h]
  · rw [htable]
    exact kphpTrackContext_kept (by rw [hsame, h])

theorem kphpTrackContext_new {cid : UInt64} {type : ContextType} {object : Nat} {env : TrackEnv}
    {id : Fin cidMax} {c : CidContext}
    (h : (kphpTrackContext s cid type object env).1.table id = some c) :
    s.table id = some c ∨ (env.Succeeds cid id ∧ c.IsFor type cid object) := by
  rcases kphpTrackContext_table s cid type object env with htable | ⟨id', hsucceeds, -, htable⟩
  · exact Or.inl (htable ▸ h)
  · rw [htable] at h
    by_cases hid : id = id'
    · subst hid
      rw [Function.update_self, Option.some.injEq] at h
      subst h
      exact Or.inr ⟨hsucceeds, rfl, rfl, rfl⟩
    · rw [Function.update_of_ne hid] at h
      exact Or.inl h

theorem populateThreads_status (threads : List ThreadSnapshot) (s : PopulateState) :
    (threads.foldl populateThread s).status =
      ((threads.map ThreadSnapshot.lookup).getLast?).getD s.status := by
  induction threads generalizing s with
  | nil => rfl
  | cons t threads ih =>
      rw [List.foldl_cons, ih, List.map_cons, List.getLast?_cons, populateThread_status]
      rfl

theorem populateThreads_held (threads : List ThreadSnapshot) (s : PopulateState)
    (o : PopulateObject) : (threads.foldl populateThread s).held o = s.held o := by
  induction threads generalizing s with
  | nil => rfl
  | cons t threads ih => rw [List.foldl_cons, ih, populateThread_held]

theorem populateThreads_kept {id : Fin cidMax} {c : CidContext} (threads : List ThreadSnapshot)
    (s : PopulateState) (h : s.table id = some c) :
    (threads.foldl populateThread s).table id = some c := by
  induction threads generalizing s with
  | nil => exact h
  | cons t threads ih => exact ih _ (populateThread_kept h)

theorem populateThreads_new {id : Fin cidMax} {c : CidContext} (threads : List ThreadSnapshot)
    (s : PopulateState) (h : (threads.foldl populateThread s).table id = some c) :
    s.table id = some c ∨ ∃ t ∈ threads, t.Live ∧ t.track.Succeeds t.uniqueThread id ∧
      c.IsFor .thread t.uniqueThread t.object := by
  induction threads generalizing s with
  | nil => exact Or.inl h
  | cons t threads ih =>
      rcases ih _ h with h | ⟨t', hmem, h⟩
      · rcases populateThread_table s t with ⟨-, htable⟩ | ⟨hlive, s₁, hsame, htable⟩
        · exact Or.inl (htable ▸ h)
        · rw [htable] at h
          rcases kphpTrackContext_new h with h | ⟨hsucceeds, hfor⟩
          · exact Or.inl (hsame ▸ h)
          · exact Or.inr ⟨t, List.mem_cons_self, hlive, hsucceeds, hfor⟩
      · exact Or.inr ⟨t', List.mem_cons_of_mem _ hmem, h⟩

theorem populateThreads_succeeds {id : Fin cidMax} (s : PopulateState) (hmem : t ∈ threads)
    (hlive : t.Live) (hsucceeds : t.track.Succeeds t.uniqueThread id) :
    ∃ c, (threads.foldl populateThread s).table id = some c := by
  induction threads generalizing s with
  | nil => cases hmem
  | cons t' threads ih =>
      rcases List.mem_cons.mp hmem with rfl | hmem
      · rcases populateThread_table s t with ⟨hdead, -⟩ | ⟨-, s₁, -, htable⟩
        · exact absurd hlive hdead
        · obtain ⟨c, hc, -⟩ := kphpTrackContext_succeeds s₁ .thread t.object hsucceeds
          exact ⟨c, populateThreads_kept threads _ (htable ▸ hc)⟩
      · exact ih _ hmem

end

/-! ## The loop over the processes -/

section

variable {system : UInt64} {s : PopulateState} {p : ProcessSnapshot}

theorem obtains_iff {object : Nat} : p.obtains s.table = true ↔
    (kphpTrackContext s p.uniqueProcessId .process object p.track).2 ≠ none := by
  rw [ProcessSnapshot.obtains, kphpTrackContext]
  cases getCidEntry p.uniqueProcessId p.track with
  | none => simp
  | some id =>
      cases hused : s.table id with
      | some context => by_cases htype : context.type = .process <;> simp [hused, htype]
      | none => by_cases hcreate : ntSuccess p.track.createObject <;> simp [hused, hcreate]

theorem populateProcessObject_status : (populateProcessObject s p).status =
    (p.threadOutcomes s.table).getLast?.getD s.status := by
  rw [ProcessSnapshot.threadOutcomes, populateProcessObject]
  split
  · next h =>
      rw [if_neg fun hobtains => obtains_iff.mp hobtains h]
      exact kphpTrackContext_status
  · next c h =>
      rw [if_pos (obtains_iff.mpr (by rw [h]; exact Option.some_ne_none c))]
      have hstatus : ((kphpTrackContext s p.uniqueProcessId .process p.object p.track).1.dereference
          (.object p.object)).status = s.status := kphpTrackContext_status
      refine (populateThreads_status _ _).trans ?_
      rw [hstatus]

theorem populateProcessObject_held {o : PopulateObject} : (populateProcessObject s p).held o =
    s.held o - if .object p.object = o then 1 else 0 := by
  rw [populateProcessObject]
  split
  · next h => simp [kphpTrackContext_held, h, heldFor]
  · next c h =>
      simp only [held_dereference, populateThreads_held, kphpTrackContext_held, h, heldFor]
      omega

theorem populateProcess_status (system : UInt64) (s : PopulateState) (p : ProcessSnapshot) :
    (populateProcess system s p).status =
      (p.outcomes system s.table).getLast?.getD s.status := by
  rw [ProcessSnapshot.outcomes, populateProcess]
  split
  · rfl
  · split
    · exact populateProcessObject_status
    · dsimp only
      split
      · next hlookup =>
          have hlookup : ¬ ntSuccess p.lookup := hlookup
          rw [if_pos hlookup]
          rfl
      · next hlookup =>
          have hlookup : ¬ ¬ ntSuccess p.lookup := hlookup
          rw [if_neg hlookup]
          split
          · next hwait =>
              have hwait : p.wait ≠ statusTimeout := hwait
              rw [if_pos hwait]
              rfl
          · next hwait =>
              have hwait : ¬ p.wait ≠ statusTimeout := hwait
              rw [if_neg hwait, populateProcessObject_status, List.getLast?_append]
              change (ProcessSnapshot.threadOutcomes s.table p).getLast?.getD p.wait = _
              cases (ProcessSnapshot.threadOutcomes s.table p).getLast? <;> rfl

theorem populateProcess_held (system : UInt64) (s : PopulateState) (p : ProcessSnapshot)
    (o : PopulateObject) : (populateProcess system s p).held o = s.held o := by
  rw [populateProcess]
  split
  · rfl
  · split
    · simp [populateProcessObject_held]
    · dsimp only
      split
      · rfl
      · split
        · simp
        · simp [populateProcessObject_held]

/-- A process that is not live leaves the table alone; otherwise its context is looked for
and, with the context, those of its threads. -/
theorem populateProcess_table (system : UInt64) (s : PopulateState) (p : ProcessSnapshot) :
    (¬ p.Live system ∧ (populateProcess system s p).table = s.table) ∨
      (p.Live system ∧ ∃ s₁ : PopulateState, s₁.table = s.table ∧
        (populateProcess system s p).table = (populateProcessObject s₁ p).table) := by
  rw [populateProcess]
  split
  · next hidle => exact Or.inl ⟨fun h => h.1 hidle, rfl⟩
  · next hidle =>
      split
      · next hsystem =>
          exact Or.inr ⟨⟨hidle, Or.inl hsystem⟩, s.reference (.object p.object), rfl, rfl⟩
      · next hsystem =>
          dsimp only
          split
          · next hlookup =>
              refine Or.inl ⟨fun h => ?_, rfl⟩
              rcases h.2 with h | h
              · exact hsystem h
              · exact hlookup h.1
          · next hlookup =>
              split
              · next hwait =>
                  refine Or.inl ⟨fun h => ?_, rfl⟩
                  rcases h.2 with h | h
                  · exact hsystem h
                  · exact hwait h.2
              · next hwait =>
                  exact Or.inr ⟨⟨hidle, Or.inr ⟨not_not.mp hlookup, not_not.mp hwait⟩⟩,
                    ((s.setStatus p.lookup).reference (.object p.object)).setStatus p.wait,
                    rfl, rfl⟩

theorem populateProcessObject_table (s : PopulateState) (p : ProcessSnapshot) :
    ∃ s₁ : PopulateState,
      s₁.table = (kphpTrackContext s p.uniqueProcessId .process p.object p.track).1.table ∧
      (populateProcessObject s p).table =
        match (kphpTrackContext s p.uniqueProcessId .process p.object p.track).2 with
        | none => s₁.table
        | some _ => (p.threads.foldl populateThread s₁).table := by
  refine ⟨(kphpTrackContext s p.uniqueProcessId .process p.object p.track).1.dereference
    (.object p.object), rfl, ?_⟩
  rw [populateProcessObject]
  cases (kphpTrackContext s p.uniqueProcessId .process p.object p.track).2 with
  | none => rfl
  | some c => rfl

variable {id : Fin cidMax} {c : CidContext}

theorem populateProcess_kept (h : s.table id = some c) :
    (populateProcess system s p).table id = some c := by
  rcases populateProcess_table system s p with ⟨-, htable⟩ | ⟨-, s₁, hsame, htable⟩
  · rw [htable, h]
  · obtain ⟨s₂, htrack, hobject⟩ := populateProcessObject_table s₁ p
    have hkept : s₂.table id = some c := by
      rw [htrack]
      exact kphpTrackContext_kept (by rw [hsame, h])
    rw [htable, hobject]
    split
    · exact hkept
    · exact populateThreads_kept _ _ hkept

theorem populateProcess_new {snapshot : List ProcessSnapshot}
    (hmem : p ∈ snapshot) (h : (populateProcess system s p).table id = some c) :
    s.table id = some c ∨
      Qualified system snapshot (populateProcess system s p).table id c := by
  rcases populateProcess_table system s p with ⟨-, htable⟩ | ⟨hlive, s₁, hsame, htable⟩
  · exact Or.inl (htable ▸ h)
  · obtain ⟨s₂, htrack, hobject⟩ := populateProcessObject_table s₁ p
    have hfirst : s₂.table id = some c → s.table id = some c ∨
        Qualified system snapshot (populateProcess system s p).table id c := by
      intro h
      rw [htrack] at h
      rcases kphpTrackContext_new h with h | ⟨hsucceeds, hfor⟩
      · exact Or.inl (hsame ▸ h)
      · exact Or.inr (.process p hmem hlive hsucceeds hfor)
    rw [htable, hobject] at h
    split at h
    · exact hfirst h
    · next context hanswer =>
        rcases populateThreads_new _ _ h with h | ⟨t, ht, htlive, hsucceeds, hfor⟩
        · exact hfirst h
        · obtain ⟨htype, id', hid', hin⟩ := kphpTrackContext_answer hanswer
          refine Or.inr (.thread p t hmem hlive ⟨id', context, hid', ?_, htype⟩ ht htlive
            hsucceeds hfor)
          rw [htable, hobject, hanswer]
          exact populateThreads_kept _ _ (htrack ▸ hin)

theorem populateProcess_process (hlive : p.Live system)
    (hsucceeds : p.track.Succeeds p.uniqueProcessId id) :
    ∃ c, (populateProcess system s p).table id = some c := by
  rcases populateProcess_table system s p with ⟨hdead, -⟩ | ⟨-, s₁, -, htable⟩
  · exact absurd hlive hdead
  · obtain ⟨s₂, htrack, hobject⟩ := populateProcessObject_table s₁ p
    obtain ⟨c, hc, -⟩ := kphpTrackContext_succeeds s₁ .process p.object hsucceeds
    refine ⟨c, ?_⟩
    rw [htable, hobject]
    split
    · exact htrack ▸ hc
    · exact populateThreads_kept _ _ (htrack ▸ hc)

theorem populateProcess_thread {t : ThreadSnapshot} {id id' : Fin cidMax}
    (hlive : p.Live system) (hsucceeds : p.track.Succeeds p.uniqueProcessId id)
    (htype : ∀ c, (populateProcess system s p).table id = some c → c.type = .process)
    (ht : t ∈ p.threads) (htlive : t.Live) (htsucceeds : t.track.Succeeds t.uniqueThread id') :
    ∃ c, (populateProcess system s p).table id' = some c := by
  rcases populateProcess_table system s p with ⟨hdead, -⟩ | ⟨-, s₁, -, htable⟩
  · exact absurd hlive hdead
  · obtain ⟨s₂, htrack, hobject⟩ := populateProcessObject_table s₁ p
    obtain ⟨c, hc, hanswer⟩ := kphpTrackContext_succeeds s₁ .process p.object hsucceeds
    have hafter : (populateProcess system s p).table id = some c := by
      rw [htable, hobject]
      split
      · exact htrack ▸ hc
      · exact populateThreads_kept _ _ (htrack ▸ hc)
    rw [htable, hobject, hanswer (htype c hafter)]
    exact populateThreads_succeeds _ ht htlive htsucceeds

theorem populate_status (system : UInt64) (l : List ProcessSnapshot) (s : PopulateState) :
    (l.foldl (populateProcess system) s).status =
      (snapshotOutcomes system s l).getLast?.getD s.status := by
  induction l generalizing s with
  | nil => rfl
  | cons p l ih =>
      rw [List.foldl_cons, ih, snapshotOutcomes, populateProcess_status, List.getLast?_append]
      cases (snapshotOutcomes system (populateProcess system s p) l).getLast? <;> rfl

theorem populate_held (system : UInt64) (l : List ProcessSnapshot) (s : PopulateState)
    (o : PopulateObject) : (l.foldl (populateProcess system) s).held o = s.held o := by
  induction l generalizing s with
  | nil => rfl
  | cons p l ih => rw [List.foldl_cons, ih, populateProcess_held]

theorem populate_kept (l : List ProcessSnapshot)
    (s : PopulateState) (h : s.table id = some c) :
    (l.foldl (populateProcess system) s).table id = some c := by
  induction l generalizing s with
  | nil => exact h
  | cons p l ih => exact ih _ (populateProcess_kept h)

theorem Qualified.mono {snapshot : List ProcessSnapshot} {table table' : ContextTable} (h : Qualified system snapshot table id c)
    (hkept : ∀ id c, table id = some c → table' id = some c) :
    Qualified system snapshot table' id c := by
  cases h with
  | process p hmem hlive htrack hfor => exact .process p hmem hlive htrack hfor
  | thread p t hmem hlive htracked hthread htlive htrack hfor =>
      obtain ⟨id', c', hid', hc', htype⟩ := htracked
      exact .thread p t hmem hlive ⟨id', c', hid', hkept _ _ hc', htype⟩ hthread htlive htrack
        hfor

theorem populate_new {snapshot : List ProcessSnapshot}
    (l : List ProcessSnapshot) (s : PopulateState) (hmem : ∀ p ∈ l, p ∈ snapshot)
    (h : (l.foldl (populateProcess system) s).table id = some c) :
    s.table id = some c ∨
      Qualified system snapshot (l.foldl (populateProcess system) s).table id c := by
  induction l generalizing s with
  | nil => exact Or.inl h
  | cons p l ih =>
      rcases ih _ (fun q hq => hmem q (List.mem_cons_of_mem _ hq)) h with h | h
      · rcases populateProcess_new (hmem p List.mem_cons_self) h with h | h
        · exact Or.inl h
        · exact Or.inr (h.mono fun id c hc => populate_kept l _ hc)
      · exact Or.inr h

theorem populate_tracksExactly (snapshot : List ProcessSnapshot) (s : PopulateState) :
    TracksExactly system snapshot s.table
      (snapshot.foldl (populateProcess system) s).table where
  kept id c h := populate_kept snapshot s h
  sound id c h := populate_new snapshot s (fun p hp => hp) h
  process := by
    intro p hp hlive id hsucceeds
    induction snapshot generalizing s with
    | nil => cases hp
    | cons q l ih =>
        rcases List.mem_cons.mp hp with rfl | hp
        · obtain ⟨c, hc⟩ := populateProcess_process (s := s) hlive hsucceeds
          exact ⟨c, populate_kept l _ hc⟩
        · exact ih _ hp
  thread := by
    intro p hp hlive id hsucceeds htype t ht htlive id' htsucceeds
    induction snapshot generalizing s with
    | nil => cases hp
    | cons q l ih =>
        rcases List.mem_cons.mp hp with rfl | hp
        · have htype : ∀ c, (populateProcess system s p).table id = some c →
              c.type = .process := fun c hc => htype c (populate_kept l _ hc)
          obtain ⟨c, hc⟩ := populateProcess_thread hlive hsucceeds htype ht htlive htsucceeds
          exact ⟨c, populate_kept l _ hc⟩
        · exact ih _ hp htype

/-! ## The call -/

theorem mem_verified {table : ContextTable} :
    c ∈ table.contexts.filterMap kphpCidEnumPostPopulate ↔
      c.type = .process ∧ ∃ id, table id = some c := by
  simp only [List.mem_filterMap, ContextTable.contexts, List.mem_finRange, true_and,
    kphpCidEnumPostPopulate]
  constructor
  · rintro ⟨c', ⟨id, hid⟩, hc⟩
    split at hc
    · next htype =>
        cases hc
        exact ⟨htype, id, hid⟩
    · cases hc
  · rintro ⟨htype, id, hid⟩
    exact ⟨c, ⟨id, hid⟩, if_pos htype⟩

/-- Once the snapshot was obtained, the call does what it should exactly when the last
lookup or exit test that it made was successful. -/
theorem kphCidPopulate_meets_iff (t : Tracking) (env : PopulateEnv) (status : NtStatus)
    (hallocate : env.allocate = true) (hquery : querySnapshot env.attempts = some status)
    (hsuccess : ntSuccess status = true) :
    ∃ r, kphCidPopulate t env = some r ∧
      (PopulateMeets env.systemProcessId env.snapshot t r ↔ LastOutcomeSucceeds t env status) ∧
      TracksExactly env.systemProcessId env.snapshot t.table r.tracking.table ∧
      (∀ o, balance r.trace o = 0) ∧
      (t.initialized = true → r.tracking.populated = true) := by
  let s₀ : PopulateState := ⟨t.table, t.created, status, []⟩
  let s := env.snapshot.foldl (populateProcess env.systemProcessId) s₀
  let r := populateExit { t with table := s.table, created := s.created } s.status s.trace
  have hrun : kphCidPopulate t env = some r := by
    simp only [kphCidPopulate, hallocate, hquery, hsuccess]
    rfl
  have htable : r.tracking.table = s.table := by
    simp only [r, populateExit, Tracking.kphCidMarkPopulated]
    split <;> rfl
  have htracks : TracksExactly env.systemProcessId env.snapshot t.table r.tracking.table := by
    rw [htable]
    exact populate_tracksExactly env.snapshot s₀
  have hreleased : ∀ o, balance r.trace o = 0 := by
    intro o
    have hheld : s.held o = s₀.held o := populate_held env.systemProcessId env.snapshot s₀ o
    exact hheld
  have hpopulated : t.initialized = true → r.tracking.populated = true := by
    intro hinit
    simp [r, populateExit, Tracking.kphCidMarkPopulated, hinit]
  have hstatus : ntSuccess s.status = true ↔ LastOutcomeSucceeds t env status := by
    have hlast : s.status = (snapshotOutcomes env.systemProcessId s₀ env.snapshot).getLast?.getD
      status := populate_status env.systemProcessId env.snapshot s₀
    rw [hlast, LastOutcomeSucceeds]
    change _ ↔ ∀ last, (snapshotOutcomes env.systemProcessId s₀ env.snapshot).getLast? = some last →
      ntSuccess last = true
    cases (snapshotOutcomes env.systemProcessId s₀ env.snapshot).getLast? with
    | none => simp [hsuccess]
    | some last => simp
  refine ⟨r, hrun, ⟨fun h => hstatus.mp h.success, fun h => ?_⟩, htracks, hreleased, hpopulated⟩
  have hok : ntSuccess s.status = true := hstatus.mpr h
  refine ⟨hok, htracks, hreleased, hpopulated, fun c => ?_⟩
  rw [htable]
  simp only [r, populateExit, hok, if_true]
  exact mem_verified

end

/-! ## A process that exits in between -/

def trackedOk : TrackEnv := ⟨true, statusSuccess⟩

/-- A process with one thread, and then one that has exited by the time it is looked up. -/
def exitedLast : List ProcessSnapshot :=
  [⟨0x10, statusSuccess, 1, statusTimeout, trackedOk, [⟨0x14, statusSuccess, 2, false, trackedOk⟩]⟩,
    ⟨0x20, statusInvalidParameter, 0, 0, trackedOk, []⟩]

def populateEnv (snapshot : List ProcessSnapshot) : PopulateEnv :=
  ⟨true, [⟨statusInfoLengthMismatch, 0x10000, true⟩, ⟨statusSuccess, 0x10000, true⟩], 4, snapshot⟩

def emptyTracking : Tracking := ⟨fun _ => none, 0, true, false⟩

/-- The process that is there is tracked, but the call fails and protects nothing. -/
theorem kphCidPopulate_exited :
    ∃ r, kphCidPopulate emptyTracking (populateEnv exitedLast) = some r ∧
      r.status = statusInvalidParameter ∧ r.verified = [] ∧
      ¬ PopulateMeets 4 exitedLast emptyTracking r := by
  refine ⟨_, rfl, rfl, rfl, fun h => ?_⟩
  exact absurd h.success (by decide)

theorem kphCidPopulate_meets_present :
    ∃ r, kphCidPopulate emptyTracking (populateEnv (exitedLast.take 1)) = some r ∧
      PopulateMeets 4 (exitedLast.take 1) emptyTracking r := by
  obtain ⟨r, hrun, hmeets, -⟩ := kphCidPopulate_meets_iff emptyTracking
    (populateEnv (exitedLast.take 1)) statusSuccess rfl rfl rfl
  refine ⟨r, hrun, hmeets.mpr ?_⟩
  have houtcomes : snapshotOutcomes 4 ⟨emptyTracking.table, 0, statusSuccess, []⟩
      (exitedLast.take 1) = [statusSuccess, statusTimeout, statusSuccess] := by
    decide +kernel
  intro last hlast
  have hlast : [statusSuccess, statusTimeout, statusSuccess].getLast? = some last :=
    houtcomes ▸ hlast
  cases hlast
  decide

end SystemInformer.Driver
