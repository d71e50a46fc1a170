import SystemInformer.Lib.Recycling
import SystemInformer.Proofs.HandleLists

/-!
# Handle tables as maps and as queues

A client knows of the handles that are live, what it stored in them, and which entries it looked
up and has not unlocked. In every run of calls that leaves an entry it holds to the call that
unlocks or destroys it, the answers are those of a map, and the values that are not live are on
the two free lists. Under strict FIFO the queue of the two lists is a number of values that were
never taken, in front of the pending ones in the order in which they were given back.

A handle is decoded from its low 32 bits, so values of the same low half are the same handle.
-/

namespace SystemInformer.PhLib

open BitField PhHandleTable

/-! ## Words of entries -/

theorem mask_locked : ((BitVec.allOnes 1).setWidth 64 <<< 1 : ULongPtr) = 2 := by decide

theorem or_two (v : ULongPtr) : v ||| 2 = put 1 (1 : BitVec 1) v := by
  rw [put, mask_locked]
  refine BitVec.eq_of_getLsbD_eq fun i hi => ?_
  simp only [BitVec.getLsbD_or, BitVec.getLsbD_and, BitVec.getLsbD_not]
  cases v.getLsbD i <;> simp [hi]

theorem and_one_eq_zero (v : ULongPtr) : v &&& 1 = 0 ↔ get 0 1 v = 0 := by
  have hmask : v &&& mask 64 0 1 = 0 ↔ field 0 1 v = 0 := and_mask_eq_zero (by decide) v
  rw [get_eq_zero]
  exact hmask

theorem and_two_eq_zero (v : ULongPtr) : v &&& 2 = 0 ↔ get 1 1 v = 0 := by
  have hmask : v &&& mask 64 1 1 = 0 ↔ field 1 1 v = 0 := and_mask_eq_zero (by decide) v
  rw [get_eq_zero]
  exact hmask

theorem sub_two {v : ULongPtr} (h : get 1 1 v = 1) : v - 2 = put 1 (0 : BitVec 1) v := by
  have hbits : v &&& 2 = 2 := by
    refine BitVec.eq_of_toNat_eq ?_
    have hvalue : (v &&& mask 64 1 1).toNat = field 1 1 v * 2 ^ 1 := toNat_and_mask (by decide) v
    rw [← toNat_get, h] at hvalue
    exact hvalue
  have hsum := TaggedWord.toNat_and_add v 2
  rw [hbits] at hsum
  have hput : put 1 (0 : BitVec 1) v = v &&& ~~~2 := by
    rw [put, mask_locked]
    simp
  refine BitVec.eq_of_toNat_eq ?_
  rw [hput, BitVec.toNat_sub_of_le]
  · show v.toNat - 2 = _
    have htwo : (2 : ULongPtr).toNat = 2 := rfl
    omega
  · rw [BitVec.le_def]
    omega

/-- The entry is in use with the contents, and locked if it is held. -/
structure EntryHolds (entry : PhHandleTableEntry) (contents : BitVec 62 × ULongPtr)
    (held : Prop) : Prop where
  type : entry.type = 0
  locked : entry.locked = 0 ↔ held
  typeAndValue : entry.typeAndValue = contents.1
  value2 : entry.value2 = contents.2

namespace EntryHolds

variable {entry : PhHandleTableEntry} {contents : BitVec 62 × ULongPtr} {held : Prop}

theorem in_use (h : EntryHolds entry contents held) : ¬ (entry.value &&& 1 ≠ 0) := by
  rw [ne_eq, not_not, and_one_eq_zero]
  exact h.type

theorem put_locked (h : EntryHolds entry contents held) {bit : BitVec 1} {held' : Prop}
    (hbit : bit = 0 ↔ held') :
    EntryHolds { entry with value := put 1 bit entry.value } contents held' := by
  refine ⟨?_, ?_, ?_, h.value2⟩
  · exact (get_put_of_disjoint (by decide) bit entry.value (.inl (by decide))).trans h.type
  · show BitField.get 1 1 (put 1 bit entry.value) = 0 ↔ held'
    rw [get_put (by decide)]
    exact hbit
  · exact (get_put_of_disjoint (by decide) bit entry.value (.inr (by decide))).trans
      h.typeAndValue

theorem unlock (h : EntryHolds entry contents held) :
    EntryHolds { entry with value := entry.value ||| 2 } contents False := by
  rw [or_two]
  exact h.put_locked ⟨fun h => absurd h (by decide), False.elim⟩

theorem lock (h : EntryHolds entry contents False) :
    entry.value &&& 2 ≠ 0 ∧
      EntryHolds { entry with value := entry.value - 2 } contents True := by
  have hlocked : entry.locked ≠ 0 := fun hz => h.locked.mp hz
  have hone : BitField.get 1 1 entry.value = 1 := by
    refine BitVec.eq_of_toNat_eq ?_
    have hlt := (BitField.get 1 1 entry.value).isLt
    have hne : (BitField.get 1 1 entry.value).toNat ≠ 0 := fun hz =>
      hlocked (BitVec.eq_of_toNat_eq hz)
    show _ = 1
    omega
  rw [sub_two hone]
  exact ⟨fun hz => hlocked ((and_two_eq_zero entry.value).mp hz),
    h.put_locked ⟨fun _ => trivial, fun _ => rfl⟩⟩

theorem new (old : PhHandleTableEntry) (given : PhHandleTableEntry) :
    EntryHolds ⟨put 2 given.typeAndValue (put 0 (0 : BitVec 1) old.value) ||| 2, given.value2⟩
      (given.typeAndValue, given.value2) False := by
  have hbits : get 0 1 (put 2 given.typeAndValue (put 0 (0 : BitVec 1) old.value)) = 0 :=
    (get_put_of_disjoint (by decide) _ _ (.inl (by decide))).trans (get_put (by decide) _ _)
  have hvalue : get 2 62 (put 2 given.typeAndValue (put 0 (0 : BitVec 1) old.value)) =
      given.typeAndValue := get_put (by decide) _ _
  have hstored : EntryHolds ⟨put 2 given.typeAndValue (put 0 (0 : BitVec 1) old.value),
      given.value2⟩ (given.typeAndValue, given.value2) _ :=
    ⟨hbits, Iff.rfl, hvalue, rfl⟩
  exact hstored.unlock

end EntryHolds

/-- The handles are live, the entries that a client holds and the values that it had and gave
back. -/
structure HandleClient where
  live : ULong → Option (BitVec 62 × ULongPtr)
  held : ULong → Option Nat
  events : List (Recycling.Event ULongPtr)

namespace HandleClient

def start : HandleClient := ⟨fun _ => none, fun _ => none, []⟩

/-- An entry that is held is not looked up again or destroyed by its handle, and only an entry
that is held is unlocked or destroyed by its place. -/
def permits (client : HandleClient) : HandleCall → Prop
  | .create _ _ => True
  | .destroy handle => client.held (phpDecodeHandle handle) = none
  | .destroyEntry handle entry => client.held (phpDecodeHandle handle) = some entry
  | .lookup handle => client.held (phpDecodeHandle handle) = none
  | .unlock entry => ∃ v, client.held v = some entry
  | .setInformation _ => True

def created (client : HandleClient) (handle : ULongPtr) (entry : PhHandleTableEntry) :
    HandleClient :=
  { client with
    live := Function.update client.live (phpDecodeHandle handle)
      (some (entry.typeAndValue, entry.value2))
    events := client.events ++ [.taken handle] }

/-- A handle that is destroyed has the value with which it was created. -/
def destroyed (client : HandleClient) (handle : ULongPtr) : HandleClient :=
  { live := Function.update client.live (phpDecodeHandle handle) none
    held := Function.update client.held (phpDecodeHandle handle) none
    events := client.events ++ [.given (phpEncodeHandle (phpDecodeHandle handle))] }

def after (client : HandleClient) : HandleCall → HandleResult → HandleClient
  | .create _ entry, .handle (some handle) => client.created handle entry
  | .destroy handle, .boolean true => client.destroyed handle
  | .destroyEntry handle _, .boolean true => client.destroyed handle
  | .lookup handle, .entry (some entry) =>
      { client with held := Function.update client.held (phpDecodeHandle handle) (some entry) }
  | .unlock entry, _ =>
      { client with held := fun v => if client.held v = some entry then none else client.held v }
  | _, _ => client

end HandleClient

/-- A run of calls of a kind, and what the client knows after it. -/
inductive HandleRun (kind : HandleCall → Prop) (start : PhHandleTable) :
    HandleClient → PhHandleTable → Prop where
  | start : HandleRun kind start .start start
  | step {client : HandleClient} {table table' : PhHandleTable} {call : HandleCall}
      {result : HandleResult} (run : HandleRun kind start client table) (hkind : kind call)
      (hpermits : client.permits call) (hperform : table.perform call = some (result, table')) :
      HandleRun kind start (client.after call result) table'

noncomputable def liveCount (client : HandleClient) : Nat := {v | client.live v ≠ none}.ncard

/-- The answer to a call, of a map from handle values to what is stored for them. -/
def HandleAnswers (client : HandleClient) (table : PhHandleTable) :
    HandleCall → HandleResult → PhHandleTable → Prop
  | .create granted _, result, table' =>
      (result = .handle none ∧ table' = table ∧
        ((∃ n, granted n = false) ∨ liveCount client = 2 ^ 24)) ∨
      ∃ handle, result = .handle (some handle) ∧
        phpEncodeHandle (phpDecodeHandle handle) = handle ∧
        client.live (phpDecodeHandle handle) = none ∧
        ∀ v, client.live v ≠ none → phpEncodeHandle v ≠ handle
  | .destroy handle, result, table' =>
      if client.live (phpDecodeHandle handle) = none then result = .boolean false ∧ table' = table
      else result = .boolean true
  | .destroyEntry _ _, result, _ => result = .boolean true
  | .lookup handle, result, table' =>
      match client.live (phpDecodeHandle handle) with
      | none => result = .entry none ∧ table' = table
      | some contents => ∃ entry, result = .entry (some entry) ∧
          (table'.memory entry).typeAndValue = contents.1 ∧
          (table'.memory entry).value2 = contents.2
  | .unlock _, result, _ => result = .void
  | .setInformation flags, result, table' =>
      if flags &&& 1 = flags then result = .boolean true ∧ table'.flags = flags
      else result = .boolean false ∧ table' = table

/-! ## What a table stands for -/

theorem toNat_encode {v : ULong} (hv : v.toNat < 2 ^ 24) :
    (phpEncodeHandle v).toNat = v.toNat * 4 + 4 := by
  rw [phpEncodeHandle, BitVec.toNat_setWidth, BitVec.toNat_add, BitVec.toNat_shiftLeft,
    Nat.shiftLeft_eq]
  have hfour : (4 : ULong).toNat = 4 := rfl
  omega

theorem phpDecodeHandle_encode {v : ULong} (hv : v.toNat < 2 ^ 24) :
    phpDecodeHandle (phpEncodeHandle v) = v := by
  refine BitVec.eq_of_toNat_eq ?_
  rw [phpDecodeHandle, BitVec.toNat_ushiftRight, BitVec.toNat_sub, BitVec.toNat_setWidth,
    toNat_encode hv, Nat.shiftRight_eq_div_pow]
  have hfour : (4 : ULong).toNat = 4 := rfl
  omega

/-- The client's handles are the values on neither list, and their entries hold what it stored. -/
structure Represents (client : HandleClient) (table : PhHandleTable) (main alt : List ULong) :
    Prop where
  lists : FreeLists table main alt
  live_iff : ∀ v, client.live v ≠ none ↔ v.toNat < table.nextValue.toNat ∧ v ∉ main ++ alt
  contents : ∀ v x, client.live v = some x →
    EntryHolds (table.memory v.toNat) x (client.held v ≠ none)
  free : ∀ v ∈ main ++ alt, (table.memory v.toNat).value &&& 1 ≠ 0
  held : ∀ v e, client.held v = some e → e = v.toNat ∧ client.live v ≠ none
  total : table.count.toNat + (main ++ alt).length = table.nextValue.toNat

theorem memory_setEntry_self {table : PhHandleTable} (e : Nat) (contents : PhHandleTableEntry) :
    (table.setEntry e contents).memory e = contents := Function.update_self ..

theorem memory_setEntry_of_ne {table : PhHandleTable} {v w : ULong} (h : w ≠ v)
    (contents : PhHandleTableEntry) :
    (table.setEntry v.toNat contents).memory w.toNat = table.memory w.toNat :=
  Function.update_of_ne (fun heq => h (BitVec.eq_of_toNat_eq heq)) _ _

theorem FreeLists.setEntry {table : PhHandleTable} {main alt : List ULong} {v : ULong}
    (h : FreeLists table main alt) (hv : v ∉ main ++ alt) (contents : PhHandleTableEntry) :
    FreeLists (table.setEntry v.toNat contents) main alt := by
  have hlink : ∀ w ∈ main ++ alt, (table.setEntry v.toNat contents).link w = table.link w := by
    intro w hw
    refine link_congr (memory_setEntry_of_ne ?_ contents)
    rintro rfl
    exact hv hw
  exact ⟨h.placed.congr rfl rfl rfl,
    h.main_chain.congr fun w hw => hlink w (List.mem_append_left _ hw),
    h.alt_chain.congr fun w hw => hlink w (List.mem_append_right _ hw), h.nodup, h.below⟩

namespace Represents

variable {client : HandleClient} {table : PhHandleTable} {main alt : List ULong} {v : ULong}

theorem not_live (h : Represents client table main alt) (hv : v ∈ main ++ alt) :
    client.live v = none := by
  by_contra hne
  exact ((h.live_iff v).mp hne).2 hv

theorem lookup_of_not_live (h : Represents client table main alt) (hv : client.live v = none) :
    table.phpLookupHandleTableEntry v = some none ∨
      table.phpLookupHandleTableEntry v = some (some v.toNat) ∧
        table.phLockHandleTableEntry v.toNat = some (false, table) := by
  rcases Nat.lt_or_ge v.toNat table.nextValue.toNat with hlt | hge
  · have hmem : v ∈ main ++ alt := by
      by_contra hnot
      exact (h.live_iff v).mpr ⟨hlt, hnot⟩ hv
    refine .inr ⟨lookup_of_placed h.lists.placed hlt, ?_⟩
    rw [phLockHandleTableEntry, if_pos (h.free v hmem)]
  · exact .inl (lookup_of_le hge)

theorem setEntry (h : Represents client table main alt) {x : BitVec 62 × ULongPtr}
    {contents : PhHandleTableEntry} {held : ULong → Option Nat} (hv : client.live v = some x)
    (hcontents : EntryHolds contents x (held v ≠ none)) (hself : ∀ e, held v = some e → e = v.toNat)
    (hothers : ∀ w, w ≠ v → held w = client.held w) :
    Represents { client with held } (table.setEntry v.toNat contents) main alt := by
  have hlive := (h.live_iff v).mp (by rw [hv]; exact Option.some_ne_none x)
  refine ⟨h.lists.setEntry hlive.2 contents, h.live_iff, fun w y hw => ?_, fun w hw => ?_,
    fun w e hw => ?_, h.total⟩
  · by_cases hwv : w = v
    · subst hwv
      rw [memory_setEntry_self]
      rw [show client.live w = some y from hw] at hv
      rw [Option.some.inj hv]
      exact hcontents
    · rw [memory_setEntry_of_ne hwv]
      show EntryHolds _ y (held w ≠ none)
      rw [hothers w hwv]
      exact h.contents w y hw
  · have hwv : w ≠ v := fun heq => hlive.2 (heq ▸ hw)
    rw [memory_setEntry_of_ne hwv]
    exact h.free w hw
  · by_cases hwv : w = v
    · subst hwv
      exact ⟨hself e hw, by rw [hv]; exact Option.some_ne_none x⟩
    · exact h.held w e ((hothers w hwv).symm.trans hw)

theorem lock (h : Represents client table main alt) {x : BitVec 62 × ULongPtr}
    (hv : client.live v = some x) (hheld : client.held v = none) :
    ∃ table', table.phpLookupHandleTableEntry v = some (some v.toNat) ∧
      table.phLockHandleTableEntry v.toNat = some (true, table') ∧ table'.flags = table.flags ∧
      EntryHolds (table'.memory v.toNat) x True ∧
      Represents { client with held := Function.update client.held v (some v.toNat) } table'
        main alt := by
  have hlive := (h.live_iff v).mp (by rw [hv]; exact Option.some_ne_none x)
  have hentry := h.contents v x hv
  rw [hheld] at hentry
  have hunlocked : EntryHolds (table.memory v.toNat) x False :=
    ⟨hentry.type, hentry.locked.trans ⟨fun hne => hne rfl, False.elim⟩, hentry.typeAndValue,
      hentry.value2⟩
  obtain ⟨hbit, hlocked⟩ := hunlocked.lock
  refine ⟨table.setEntry v.toNat { table.memory v.toNat with
    value := (table.memory v.toNat).value - 2 }, lookup_of_placed h.lists.placed hlive.1, ?_, rfl,
    ?_, h.setEntry hv ?_ (fun e he => ?_) fun w hw => Function.update_of_ne hw _ _⟩
  · rw [phLockHandleTableEntry, if_neg hunlocked.in_use, if_pos hbit]
  · rw [memory_setEntry_self]
    exact hlocked
  · rw [Function.update_self]
    exact ⟨hlocked.type, hlocked.locked.trans ⟨fun _ => Option.some_ne_none _, fun _ => trivial⟩,
      hlocked.typeAndValue, hlocked.value2⟩
  · rw [Function.update_self] at he
    exact (Option.some.inj he).symm

theorem release (h : Represents client table main alt) {x : BitVec 62 × ULongPtr}
    (handle : ULongPtr) (hhandle : phpDecodeHandle handle = v) (hv : client.live v = some x) :
    Represents (client.destroyed handle) (table.releaseEntry v v.toNat)
      (if table.strictFifo then main else v :: main)
      (if table.strictFifo then v :: alt else alt) := by
  obtain ⟨hbelow, hnotin⟩ := (h.live_iff v).mp (by rw [hv]; exact Option.some_ne_none x)
  have hmarked := free_spec (h.lists.setEntry hnotin
    { table.memory v.toNat with value := 1 }) hbelow hnotin
  have hstrict : (table.setEntry v.toNat { table.memory v.toNat with value := 1 }).strictFifo =
      table.strictFifo := rfl
  rw [hstrict] at hmarked
  have hlist : ((if table.strictFifo then main else v :: main) ++
      (if table.strictFifo then v :: alt else alt)).Perm (v :: (main ++ alt)) := by
    cases table.strictFifo with
    | true => exact List.perm_middle
    | false => exact .refl _
  have hfields : (table.releaseEntry v v.toNat).nextValue = table.nextValue ∧
      (table.releaseEntry v v.toNat).count = table.count - 1 ∧
      ∀ w, (table.releaseEntry v v.toNat).memory w =
        ((table.setEntry v.toNat { table.memory v.toNat with value := 1 }).setNextFreeValue v.toNat
          (if table.strictFifo then table.freeValueAlt else table.freeValue)).memory w := by
    rw [releaseEntry, phpFreeHandleTableEntry]
    have hsame : PhHandleTable.strictFifo
        { table.setEntry v.toNat { table.memory v.toNat with value := 1 } with
          count := (table.setEntry v.toNat { table.memory v.toNat with value := 1 }).count - 1 } =
        table.strictFifo := rfl
    simp only [hsame]
    cases table.strictFifo with
    | true => exact ⟨rfl, rfl, fun w => rfl⟩
    | false => exact ⟨rfl, rfl, fun w => rfl⟩
  obtain ⟨hnext, hcount, hmemory⟩ := hfields
  have hothers : ∀ w, w ≠ v → (table.releaseEntry v v.toNat).memory w.toNat =
      table.memory w.toNat := by
    intro w hw
    rw [hmemory, memory_setNextFreeValue_of_ne hw, memory_setEntry_of_ne hw]
  have hlive : (client.destroyed handle).live = Function.update client.live v none := by
    rw [← hhandle]
    rfl
  have hheld : (client.destroyed handle).held = Function.update client.held v none := by
    rw [← hhandle]
    rfl
  have hroom := length_le_of_below (List.nodup_cons.mpr ⟨hnotin, h.lists.nodup⟩)
    (n := table.nextValue.toNat) fun w hw => by
      rcases List.mem_cons.mp hw with rfl | hw
      · exact hbelow
      · exact h.lists.below w hw
  have htotal := h.total
  rw [List.length_cons] at hroom
  refine ⟨hmarked, fun w => ?_, fun w y hw => ?_, fun w hw => ?_, fun w e hw => ?_, ?_⟩
  · rw [hnext, hlist.mem_iff, List.mem_cons, not_or, hlive]
    by_cases hwv : w = v
    · simp [hwv]
    · rw [Function.update_of_ne hwv, h.live_iff w]
      exact ⟨fun hl => ⟨hl.1, hwv, hl.2⟩, fun hl => ⟨hl.1, hl.2.2⟩⟩
  · rw [hlive] at hw
    have hwv : w ≠ v := by
      rintro rfl
      rw [Function.update_self] at hw
      cases hw
    rw [Function.update_of_ne hwv] at hw
    rw [hothers w hwv, hheld, Function.update_of_ne hwv]
    exact h.contents w y hw
  · rcases List.mem_cons.mp (hlist.mem_iff.mp hw) with rfl | hw
    · rw [hmemory, value_memory_setNextFreeValue, memory_setEntry_self]
      show (1 : ULongPtr) &&& 1 ≠ 0
      decide
    · rw [hothers w fun heq => hnotin (heq ▸ hw)]
      exact h.free w hw
  · rw [hheld] at hw
    have hwv : w ≠ v := by
      rintro rfl
      rw [Function.update_self] at hw
      cases hw
    rw [Function.update_of_ne hwv] at hw
    rw [hlive, Function.update_of_ne hwv]
    exact h.held w e hw
  · rw [hnext, hcount, hlist.length_eq, List.length_cons, BitVec.toNat_sub_of_le]
    · show table.count.toNat - 1 + _ = _
      omega
    · rw [BitVec.le_def]
      show 1 ≤ _
      omega

end Represents

def filled (table : PhHandleTable) (v : ULong) (entry : PhHandleTableEntry) : PhHandleTable :=
  let contents := table.memory v.toNat
  (table.setEntry v.toNat
    ⟨put 2 entry.typeAndValue (put 0 (0 : BitVec 1) contents.value), entry.value2⟩).phUnlockHandleTableEntry
      v.toNat

theorem memory_filled_self (table : PhHandleTable) (v : ULong) (entry : PhHandleTableEntry) :
    EntryHolds ((filled table v entry).memory v.toNat) (entry.typeAndValue, entry.value2) False := by
  rw [filled, phUnlockHandleTableEntry, memory_setEntry_self, memory_setEntry_self]
  exact EntryHolds.new (table.memory v.toNat) entry

theorem memory_filled_of_ne {table : PhHandleTable} {v w : ULong} (h : w ≠ v)
    (entry : PhHandleTableEntry) :
    (filled table v entry).memory w.toNat = table.memory w.toNat := by
  rw [filled, phUnlockHandleTableEntry, memory_setEntry_of_ne h, memory_setEntry_of_ne h]

namespace Represents

variable {client : HandleClient} {table : PhHandleTable} {main alt : List ULong} {v : ULong}

theorem fill {table' : PhHandleTable} {main' alt' block : List ULong}
    (h : Represents client table main alt) (hlists : FreeLists table' (v :: main') alt')
    (hperm : (v :: main' ++ alt').Perm (block ++ (main ++ alt)))
    (hrefilled : Refilled table table' (main ++ alt) block) (entry : PhHandleTableEntry) :
    v.toNat < 2 ^ 24 ∧ client.live v = none ∧
      Represents (client.created (phpEncodeHandle v) entry) (filled (popped table' v) v entry)
        main' alt' := by
  have hbelow := hlists.below v List.mem_cons_self
  have hsmall : v.toNat < 2 ^ 24 := by
    have := hlists.placed.nextValue_le
    omega
  obtain ⟨hnotin, hnodup⟩ := List.nodup_cons.mp hlists.nodup
  have hgrow := hrefilled.nextValue
  have hmem : ∀ w, w ∈ v :: (main' ++ alt') ↔ w ∈ block ∨ w ∈ main ++ alt := by
    intro w
    rw [← List.mem_append]
    exact hperm.mem_iff
  have hdead : client.live v = none := by
    rcases (hmem v).mp List.mem_cons_self with hv | hv
    · by_contra hne
      have := ((h.live_iff v).mp hne).1
      have := ((hrefilled.mem_block v).mp hv).1
      omega
    · exact h.not_live hv
  have hnotheld : client.held v = none := by
    by_contra hne
    obtain ⟨e, he⟩ := Option.ne_none_iff_exists'.mp hne
    exact (h.held v e he).2 hdead
  have hlive : (client.created (phpEncodeHandle v) entry).live =
      Function.update client.live v (some (entry.typeAndValue, entry.value2)) := by
    rw [HandleClient.created, phpDecodeHandle_encode hsmall]
  have hheld : (client.created (phpEncodeHandle v) entry).held = client.held := rfl
  have htotal := h.total
  have hlength := hperm.length_eq
  refine ⟨hsmall, hdead, ?_, fun w => ?_, fun w y hw => ?_, fun w hw => ?_, fun w e hw => ?_, ?_⟩
  · exact (hlists.popped.setEntry hnotin _).setEntry hnotin _
  · show _ ↔ w.toNat < table'.nextValue.toNat ∧ _
    rw [hlive]
    by_cases hwv : w = v
    · subst hwv
      rw [Function.update_self]
      exact ⟨fun _ => ⟨hbelow, hnotin⟩, fun _ => Option.some_ne_none _⟩
    · rw [Function.update_of_ne hwv, h.live_iff w]
      have hw := hmem w
      rw [List.mem_cons, or_iff_right hwv, hrefilled.mem_block w] at hw
      rw [hw]
      constructor
      · rintro ⟨hlt, hnot⟩
        refine ⟨by omega, ?_⟩
        rintro (⟨hge, -⟩ | hin)
        · omega
        · exact hnot hin
      · rintro ⟨hlt, hnot⟩
        rw [not_or] at hnot
        exact ⟨by_contra fun hge => hnot.1 ⟨by omega, hlt⟩, hnot.2⟩
  · rw [hlive] at hw
    rw [hheld]
    by_cases hwv : w = v
    · subst hwv
      rw [Function.update_self, Option.some.injEq] at hw
      rw [hnotheld, ← hw]
      have hnew := memory_filled_self (popped table' w) w entry
      exact ⟨hnew.type, hnew.locked.trans ⟨False.elim, fun hne => hne rfl⟩, hnew.typeAndValue,
        hnew.value2⟩
    · rw [Function.update_of_ne hwv] at hw
      obtain ⟨hlt, hnot⟩ := (h.live_iff w).mp (by rw [hw]; exact Option.some_ne_none y)
      rw [memory_filled_of_ne hwv]
      show EntryHolds (table'.memory w.toNat) y _
      rw [hrefilled.others w hlt hnot]
      exact h.contents w y hw
  · have hwv : w ≠ v := by
      rintro rfl
      exact hnotin hw
    rw [memory_filled_of_ne hwv]
    show (table'.memory w.toNat).value &&& 1 ≠ 0
    rcases (hmem w).mp (List.mem_cons_of_mem v hw) with hblock | hold
    · rw [hrefilled.fresh w hblock]
      decide
    · rw [hrefilled.value w (h.lists.below w hold)]
      exact h.free w hold
  · rw [hheld] at hw
    obtain ⟨he, hne⟩ := h.held w e hw
    refine ⟨he, ?_⟩
    rw [hlive]
    by_cases hwv : w = v
    · rw [hwv, Function.update_self]
      exact Option.some_ne_none _
    · rw [Function.update_of_ne hwv]
      exact hne
  · have hcount : (filled (popped table' v) v entry).count = table.count + 1 := by
      rw [← hrefilled.count]
      rfl
    have hmost := h.lists.placed.nextValue_le
    rw [hcount, BitVec.toNat_add]
    show (table.count.toNat + 1) % 2 ^ 32 + _ = table'.nextValue.toNat
    rw [Nat.mod_eq_of_lt (by omega)]
    simp only [List.length_cons, List.cons_append, List.length_append] at hlength htotal ⊢
    omega

theorem create (h : Represents client table main alt) (granted : Nat → Bool)
    (entry : PhHandleTableEntry) :
    (table.phCreateHandle granted entry = some (none, table) ∧ main = [] ∧ alt = [] ∧
        Refused table granted) ∨
      ∃ v main' alt' block table',
        table.phCreateHandle granted entry = some (some (phpEncodeHandle v), table') ∧
        v.toNat < 2 ^ 24 ∧ client.live v = none ∧ table'.flags = table.flags ∧
        Represents (client.created (phpEncodeHandle v) entry) table' main' alt' ∧
        (table.strictFifo = true →
          v :: main' ++ alt'.reverse = block ++ (main ++ alt.reverse)) := by
  rcases allocate_spec h.lists granted with ⟨hnone, hmain, halt, hrefused⟩ |
    ⟨v, main', alt', block, table', htake, hlists, hperm, horder, hrefilled⟩
  · refine .inl ⟨?_, hmain, halt, hrefused⟩
    rw [phCreateHandle, hnone]
    rfl
  · obtain ⟨hsmall, hdead, hfilled⟩ := h.fill hlists hperm hrefilled entry
    refine .inr ⟨v, main', alt', block, filled (popped table' v) v entry, ?_, hsmall, hdead,
      hrefilled.flags, hfilled, horder⟩
    rw [phCreateHandle, htake]
    rfl

end Represents

/-! ## Counting -/

theorem ncard_below {n : Nat} (hn : n ≤ 2 ^ 32) : {v : ULong | v.toNat < n}.ncard = n := by
  have himage : {v : ULong | v.toNat < n} = BitVec.ofNat 32 '' (Finset.range n : Set Nat) := by
    ext v
    constructor
    · intro hv
      exact ⟨v.toNat, by simpa using hv, by simp⟩
    · rintro ⟨k, hk, rfl⟩
      have hlt : k < n := by simpa using hk
      show (BitVec.ofNat 32 k).toNat < n
      rw [BitVec.toNat_ofNat, Nat.mod_eq_of_lt (by omega)]
      exact hlt
  have hinj : Set.InjOn (BitVec.ofNat 32) (Finset.range n : Set Nat) := ?_
  · rw [himage, hinj.ncard_image, Set.ncard_coe_finset, Finset.card_range]
  intro i hi j hj hij
  have hi' : i < n := by simpa using hi
  have hj' : j < n := by simpa using hj
  have hnat := congrArg BitVec.toNat hij
  rw [BitVec.toNat_ofNat, BitVec.toNat_ofNat, Nat.mod_eq_of_lt (by omega),
    Nat.mod_eq_of_lt (by omega)] at hnat
  exact hnat

theorem Represents.liveCount_eq {client : HandleClient} {table : PhHandleTable}
    {main alt : List ULong} (h : Represents client table main alt) :
    liveCount client = table.count.toNat := by
  have hsplit : {v : ULong | v.toNat < table.nextValue.toNat} =
      {v | client.live v ≠ none} ∪ {v | v ∈ main ++ alt} := by
    ext v
    constructor
    · intro hv
      by_cases hmem : v ∈ main ++ alt
      · exact .inr hmem
      · exact .inl ((h.live_iff v).mpr ⟨hv, hmem⟩)
    · rintro (hv | hv)
      · exact ((h.live_iff v).mp hv).1
      · exact h.lists.below v hv
  have hdisjoint : Disjoint {v | client.live v ≠ none} {v | v ∈ main ++ alt} :=
    Set.disjoint_left.mpr fun v hv => ((h.live_iff v).mp hv).2
  have hlists : {v | v ∈ main ++ alt}.ncard = (main ++ alt).length := by
    rw [← List.coe_toFinset, Set.ncard_coe_finset, List.toFinset_card_of_nodup h.lists.nodup]
  have hbelow := ncard_below table.nextValue.isLt.le
  rw [hsplit, Set.ncard_union_eq hdisjoint (Set.toFinite _) (Set.toFinite _), hlists] at hbelow
  have htotal := h.total
  rw [liveCount]
  omega

/-! ## Steps -/

/-- What a call does to the queue under strict FIFO. -/
inductive QueueMove (client client' : HandleClient) (queue queue' : List ULong) : Prop where
  | same (events : client'.events = client.events) (same : queue' = queue)
  | taken (v : ULong) (block : List ULong) (small : v.toNat < 2 ^ 24)
      (events : client'.events = client.events ++ [.taken (phpEncodeHandle v)])
      (taken : v :: queue' = block ++ queue) (gone : v ∉ queue')
  | given (v : ULong) (events : client'.events = client.events ++ [.given (phpEncodeHandle v)])
      (given : queue' = queue ++ [v])

def KeepsFlags : HandleCall → Prop
  | .setInformation _ => False
  | _ => True

def StepSpec (client : HandleClient) (table : PhHandleTable) (main alt : List ULong)
    (call : HandleCall) : Prop :=
  ∃ result table' main' alt', table.perform call = some (result, table') ∧
    HandleAnswers client table call result table' ∧
    Represents (client.after call result) table' main' alt' ∧
    (KeepsFlags call → table'.flags = table.flags) ∧
    (table.strictFifo = true → KeepsFlags call → QueueMove client (client.after call result)
      (main ++ alt.reverse) (main' ++ alt'.reverse))

section

variable {client : HandleClient} {table : PhHandleTable} {main alt : List ULong}

theorem create_step (h : Represents client table main alt) (granted : Nat → Bool)
    (entry : PhHandleTableEntry) : StepSpec client table main alt (.create granted entry) := by
  rcases h.create granted entry with ⟨hnone, rfl, rfl, hrefused⟩ |
    ⟨v, main', alt', block, table', hcreate, hsmall, hdead, hflags, hrep, horder⟩
  · refine ⟨.handle none, table, [], [], ?_, .inl ⟨rfl, rfl, ?_⟩, h, fun _ => rfl,
      fun _ _ => .same rfl rfl⟩
    · rw [perform, hnone]
      rfl
    · refine hrefused.imp_right fun hmost => ?_
      have htotal := h.total
      have hnext := h.lists.placed.nextValue
      rw [List.append_nil, List.length_nil] at htotal
      rw [h.liveCount_eq]
      omega
  · have hdecode := phpDecodeHandle_encode hsmall
    refine ⟨.handle (some (phpEncodeHandle v)), table', main', alt', ?_,
      .inr ⟨phpEncodeHandle v, rfl, ?_, ?_, fun w hw heq => ?_⟩, hrep, fun _ => hflags,
      fun hstrict _ => .taken v block hsmall rfl (horder hstrict) ?_⟩
    · rw [perform, hcreate]
      rfl
    · rw [hdecode]
    · rw [hdecode]
      exact hdead
    · have hbelow := ((h.live_iff w).mp hw).1
      have hmost := h.lists.placed.nextValue_le
      have hsame := congrArg phpDecodeHandle heq
      rw [hdecode, phpDecodeHandle_encode (by omega)] at hsame
      exact hw (hsame ▸ hdead)
    · have hlive : (client.created (phpEncodeHandle v) entry).live v ≠ none := by
        show Function.update client.live (phpDecodeHandle (phpEncodeHandle v)) _ v ≠ none
        rw [hdecode, Function.update_self]
        exact Option.some_ne_none _
      have hnot := ((hrep.live_iff v).mp hlive).2
      rw [List.mem_append, List.mem_reverse, ← List.mem_append]
      exact hnot

theorem release_step {held : ULong → Option Nat} {locked : PhHandleTable} {handle : ULongPtr}
    (h : Represents { client with held } locked main alt) {x : BitVec 62 × ULongPtr}
    (hothers : ∀ w, w ≠ phpDecodeHandle handle → held w = client.held w)
    (hv : client.live (phpDecodeHandle handle) = some x) {call : HandleCall}
    (hafter : client.after call (.boolean true) = client.destroyed handle)
    (hflags : locked.flags = table.flags)
    (hperform : table.perform call = some (.boolean true, locked.releaseEntry
      (phpDecodeHandle handle) (phpDecodeHandle handle).toNat))
    (hanswers : ∀ table', HandleAnswers client table call (.boolean true) table') :
    StepSpec client table main alt call := by
  have hreleased := h.release handle rfl hv
  have hsame : HandleClient.destroyed { client with held } handle = client.destroyed handle := by
    have hheld : Function.update held (phpDecodeHandle handle) none =
        Function.update client.held (phpDecodeHandle handle) none := by
      funext w
      by_cases hw : w = phpDecodeHandle handle
      · rw [hw, Function.update_self, Function.update_self]
      · rw [Function.update_of_ne hw, Function.update_of_ne hw, hothers w hw]
    rw [HandleClient.destroyed, HandleClient.destroyed, hheld]
  rw [hsame, ← hafter] at hreleased
  have hstrict : locked.strictFifo = table.strictFifo := by
    rw [strictFifo, strictFifo, hflags]
  refine ⟨.boolean true, _, _, _, hperform, hanswers _, hreleased, fun _ => ?_, fun hfifo _ => ?_⟩
  · rw [← hflags, releaseEntry, phpFreeHandleTableEntry]
    split
    · rfl
    · rfl
  · rw [hafter, hstrict, hfifo]
    exact .given (phpDecodeHandle handle) rfl (by simp)

theorem destroy_step (h : Represents client table main alt) {handle : ULongPtr}
    (hpermits : client.permits (.destroy handle)) :
    StepSpec client table main alt (.destroy handle) := by
  cases hv : client.live (phpDecodeHandle handle) with
  | none =>
      refine ⟨.boolean false, table, main, alt, ?_, ?_, h, fun _ => rfl, fun _ _ => .same rfl rfl⟩
      · rw [perform, phDestroyHandle]
        rcases h.lookup_of_not_live hv with hlookup | ⟨hlookup, hlock⟩
        · rw [hlookup]
          rfl
        · rw [hlookup]
          show (((table.phLockHandleTableEntry _).bind _).map _) = _
          rw [hlock]
          rfl
      · rw [HandleAnswers, if_pos hv]
        exact ⟨rfl, rfl⟩
  | some x =>
      obtain ⟨locked, hlookup, hlock, hflags, -, hrep⟩ := h.lock hv hpermits
      refine release_step hrep (fun w hw => Function.update_of_ne hw _ _) hv rfl hflags ?_
        fun table' => ?_
      · rw [perform, phDestroyHandle, hlookup]
        show (((table.phLockHandleTableEntry _).bind _).map _) = _
        rw [hlock]
        rfl
      · rw [HandleAnswers, if_neg (by rw [hv]; exact Option.some_ne_none x)]

theorem destroyEntry_step (h : Represents client table main alt) {handle : ULongPtr} {entry : Nat}
    (hpermits : client.permits (.destroyEntry handle entry)) :
    StepSpec client table main alt (.destroyEntry handle entry) := by
  obtain ⟨rfl, hlive⟩ := h.held _ _ hpermits
  obtain ⟨x, hv⟩ := Option.ne_none_iff_exists'.mp hlive
  exact release_step h (fun w _ => rfl) hv rfl rfl rfl fun _ => rfl

theorem lookup_step (h : Represents client table main alt) {handle : ULongPtr}
    (hpermits : client.permits (.lookup handle)) :
    StepSpec client table main alt (.lookup handle) := by
  cases hv : client.live (phpDecodeHandle handle) with
  | none =>
      refine ⟨.entry none, table, main, alt, ?_, ?_, h, fun _ => rfl, fun _ _ => .same rfl rfl⟩
      · rw [perform, phLookupHandleTableEntry]
        rcases h.lookup_of_not_live hv with hlookup | ⟨hlookup, hlock⟩
        · rw [hlookup]
          rfl
        · rw [hlookup]
          show (((table.phLockHandleTableEntry _).bind _).map _) = _
          rw [hlock]
          rfl
      · rw [HandleAnswers, hv]
        exact ⟨rfl, rfl⟩
  | some x =>
      obtain ⟨locked, hlookup, hlock, hflags, hentry, hrep⟩ := h.lock hv hpermits
      refine ⟨.entry (some (phpDecodeHandle handle).toNat), locked, main, alt, ?_, ?_, hrep,
        fun _ => hflags, fun _ _ => .same rfl rfl⟩
      · rw [perform, phLookupHandleTableEntry, hlookup]
        show (((table.phLockHandleTableEntry _).bind _).map _) = _
        rw [hlock]
        rfl
      · rw [HandleAnswers, hv]
        exact ⟨_, rfl, hentry.typeAndValue, hentry.value2⟩

theorem unlock_step (h : Represents client table main alt) {entry : Nat}
    (hpermits : client.permits (.unlock entry)) :
    StepSpec client table main alt (.unlock entry) := by
  obtain ⟨v, hheld⟩ := hpermits
  obtain ⟨rfl, hlive⟩ := h.held _ _ hheld
  obtain ⟨x, hv⟩ := Option.ne_none_iff_exists'.mp hlive
  have hentry := (h.contents v x hv).unlock
  refine ⟨.void, table.phUnlockHandleTableEntry v.toNat, main, alt, rfl, rfl,
    h.setEntry hv ?_ ?_ ?_, fun _ => rfl, fun _ _ => .same rfl rfl⟩
  · rw [if_pos hheld]
    exact ⟨hentry.type, hentry.locked.trans ⟨False.elim, fun hne => hne rfl⟩,
      hentry.typeAndValue, hentry.value2⟩
  · intro e he
    rw [if_pos hheld] at he
    cases he
  · intro w hw
    rw [if_neg fun heq => hw (BitVec.eq_of_toNat_eq (h.held w _ heq).1.symm)]

theorem setInformation_step (h : Represents client table main alt) (flags : ULong) :
    StepSpec client table main alt (.setInformation flags) := by
  by_cases hvalid : flags &&& 1 = flags
  · refine ⟨.boolean true, { table with flags }, main, alt, ?_, ?_,
      ⟨h.lists.congr rfl rfl rfl rfl rfl rfl, h.live_iff, h.contents, h.free, h.held, h.total⟩,
      False.elim, fun _ => False.elim⟩
    · rw [perform, phSetInformationHandleTable, if_pos hvalid]
    · rw [HandleAnswers, if_pos hvalid]
      exact ⟨rfl, rfl⟩
  · refine ⟨.boolean false, table, main, alt, ?_, ?_, h, False.elim, fun _ => False.elim⟩
    · rw [perform, phSetInformationHandleTable, if_neg hvalid]
    · rw [HandleAnswers, if_neg hvalid]
      exact ⟨rfl, rfl⟩

theorem perform_step (h : Represents client table main alt) {call : HandleCall}
    (hpermits : client.permits call) : StepSpec client table main alt call := by
  cases call with
  | create granted entry => exact create_step h granted entry
  | destroy handle => exact destroy_step h hpermits
  | destroyEntry handle entry => exact destroyEntry_step h hpermits
  | lookup handle => exact lookup_step h hpermits
  | unlock entry => exact unlock_step h hpermits
  | setInformation flags => exact setInformation_step h flags

end

/-! ## Runs -/

theorem phCreateHandleTable_spec {memory : Nat → PhHandleTableEntry} {granted : Nat → Bool}
    {table : PhHandleTable} (h : phCreateHandleTable memory granted = some table) :
    table.count = 0 ∧ table.tableValue = .level0 0 ∧ table.freeValue = 0 ∧
      table.nextValue.toNat = 256 ∧ table.freeValueAlt = phHandleValueInvalid ∧
      table.allocated = 1 ∧ ∀ i < 256, table.memory i = freshEntry 0 (memory i) i := by
  rw [phCreateHandleTable] at h
  split at h
  · obtain rfl := Option.some.inj h
    refine ⟨rfl, rfl, rfl, rfl, rfl, rfl, fun i hi => ?_⟩
    show (if i / phHandleTableLevelEntries = 0 then
      freshEntry 0 (memory i) (i % phHandleTableLevelEntries) else memory i) = _
    rw [phHandleTableLevelEntries, if_pos (by omega), Nat.mod_eq_of_lt hi]
  · cases h

theorem represents_start {memory : Nat → PhHandleTableEntry} {granted : Nat → Bool}
    {table : PhHandleTable} (h : phCreateHandleTable memory granted = some table) :
    Represents .start table (freshValues 0) [] := by
  obtain ⟨hcount, htable, hfree, hnext, halt, hallocated, hmemory⟩ := phCreateHandleTable_spec h
  have hzero : (0 + 256 : Nat) ≤ 2 ^ 24 := by decide
  have hfresh : ∀ v ∈ freshValues 0, v.toNat < 256 := by
    intro v hv
    have := (mem_freshValues hzero v).mp hv
    omega
  have hlink : ∀ i < 256, table.link (BitVec.ofNat 32 i) =
      listed (if i + 1 < 256 then 0 + BitVec.ofNat 32 (i + 1) else phHandleValueInvalid) := by
    intro i hi
    have hnat : (BitVec.ofNat 32 i).toNat = i := Nat.mod_eq_of_lt (by omega)
    rw [link, hnat, hmemory i hi, freshEntry, nextFreeValue_setNextFreeValue,
      phHandleTableLevelEntries]
  have hchain : Links.Chain table.link (some (BitVec.ofNat 32 0)) (freshValues 0 ++ []) := by
    refine chain_freshValues (fun i _ hi => ?_) ?_
    · have hsum : (0 : ULong) + BitVec.ofNat 32 (i + 1) = BitVec.ofNat 32 (i + 1) :=
        BitVec.zero_add _
      rw [hlink i (by omega), if_pos (by omega), hsum]
      refine listed_of_ne fun heq => ?_
      have := congrArg BitVec.toNat heq
      rw [BitVec.toNat_ofNat, phHandleValueInvalid, BitVec.toNat_allOnes] at this
      omega
    · rw [hlink 255 (by decide)]
      exact .nil
  rw [List.append_nil] at hchain
  refine ⟨⟨⟨?_, ?_, ?_, ?_⟩, ?_, ?_, ?_, fun v hv => ?_⟩, fun v => ?_,
    fun v x hv => absurd hv (Option.some_ne_none x).symm, fun v hv => ?_,
    fun v e hv => absurd hv (Option.some_ne_none e).symm, ?_⟩
  · rw [hnext, hallocated]
  · rw [hallocated]
    decide
  · rw [hallocated]
    decide
  · rw [htable, hallocated]
    exact ⟨rfl, rfl⟩
  · rw [hfree]
    exact hchain
  · rw [halt]
    exact .nil
  · rw [List.append_nil]
    exact nodup_freshValues hzero
  · rw [List.append_nil] at hv
    rw [hnext]
    exact hfresh v hv
  · rw [List.append_nil, mem_freshValues hzero, hnext]
    refine ⟨fun hlive => absurd rfl hlive, ?_⟩
    rintro ⟨hlt, hnot⟩
    exact absurd ⟨Nat.zero_le _, by omega⟩ hnot
  · rw [List.append_nil] at hv
    rw [hmemory _ (hfresh v hv)]
    show (1 : ULongPtr) &&& 1 ≠ 0
    decide
  · rw [List.append_nil, length_freshValues, hcount, hnext]
    rfl

theorem represents_run {kind : HandleCall → Prop} {start table : PhHandleTable}
    {client : HandleClient} {main alt : List ULong} (hstart : Represents .start start main alt)
    (hrun : HandleRun kind start client table) : ∃ main alt, Represents client table main alt := by
  induction hrun with
  | start => exact ⟨main, alt, hstart⟩
  | step run hkind hpermits hperform ih =>
      obtain ⟨main, alt, hrep⟩ := ih
      obtain ⟨result, table', main', alt', hstep, -, hrep', -⟩ := perform_step hrep hpermits
      rw [hperform, Option.some.injEq] at hstep
      obtain ⟨rfl, rfl⟩ := Prod.mk.inj hstep
      exact ⟨main', alt', hrep'⟩

/-- In every run the two free lists and the live handles make up the values below `NextValue`,
`Count` counts the live handles, and every call returns with the answer of the map. -/
theorem handleTable_refines_map {memory : Nat → PhHandleTableEntry} {granted : Nat → Bool}
    {start table : PhHandleTable} {client : HandleClient}
    (hcreate : phCreateHandleTable memory granted = some start)
    (hrun : HandleRun (fun _ => True) start client table) :
    (∃ main alt, Links.Chain table.link (listed table.freeValue) main ∧
      Links.Chain table.link (listed table.freeValueAlt) alt ∧ (main ++ alt).Nodup ∧
      (∀ v, v.toNat < table.nextValue.toNat ↔ v ∈ main ++ alt ∨ client.live v ≠ none) ∧
      ∀ v ∈ main ++ alt, client.live v = none) ∧
    table.count.toNat = liveCount client ∧
    ∀ call, client.permits call → ∃ result table', table.perform call = some (result, table') ∧
      HandleAnswers client table call result table' := by
  obtain ⟨main, alt, hrep⟩ := represents_run (represents_start hcreate) hrun
  refine ⟨⟨main, alt, hrep.lists.main_chain, hrep.lists.alt_chain, hrep.lists.nodup,
    fun v => ⟨fun hv => ?_, ?_⟩, fun v hv => hrep.not_live hv⟩, hrep.liveCount_eq.symm,
    fun call hpermits => ?_⟩
  · by_cases hmem : v ∈ main ++ alt
    · exact .inl hmem
    · exact .inr ((hrep.live_iff v).mpr ⟨hv, hmem⟩)
  · rintro (hmem | hlive)
    · exact hrep.lists.below v hmem
    · exact ((hrep.live_iff v).mp hlive).1
  · obtain ⟨result, table', -, -, hperform, hanswers, -⟩ := perform_step hrep hpermits
    exact ⟨result, table', hperform, hanswers⟩

theorem handleTable_refines_map_created :
    ∃ start client table, HandleRun (fun _ => True) start client table ∧
      client.live 0 = some (1, 9) ∧ table.count.toNat = liveCount client := by
  obtain ⟨start, hcreate⟩ : ∃ start,
      phCreateHandleTable (fun _ => ⟨0, 0⟩) (fun _ => true) = some start := ⟨_, rfl⟩
  obtain ⟨result, table, hperform, -⟩ := (handleTable_refines_map hcreate .start).2.2
    (.create (fun _ => true) ⟨4, 9⟩) trivial
  have hresult : ((phCreateHandleTable (fun _ => ⟨0, 0⟩) fun _ => true).bind fun start =>
      (start.perform (.create (fun _ => true) ⟨4, 9⟩)).map Prod.fst) = some (.handle (some 4)) := by
    decide
  rw [hcreate, Option.bind_some, hperform, Option.map_some, Option.some.injEq] at hresult
  subst hresult
  have hrun : HandleRun (fun _ => True) start
      (HandleClient.start.after (.create (fun _ => true) ⟨4, 9⟩) (.handle (some 4))) table :=
    .step .start trivial trivial hperform
  exact ⟨start, _, table, hrun, by decide, (handleTable_refines_map hcreate hrun).2.1⟩

/-- A handle that was never created is found through its low 32 bits. -/
theorem lookup_ignores_upper_half :
    ((phCreateHandleTable (fun _ => ⟨0, 0⟩) fun _ => true).bind fun start =>
      (start.perform (.create (fun _ => true) ⟨4, 9⟩)).bind fun (created, table) =>
        (table.perform (.lookup 0x100000004)).map fun (found, _) => (created, found)) =
      some (.handle (some 4), .entry (some 0)) ∧
    (0x100000004 : ULongPtr) >>> 2 ≠ 4 >>> 2 := by
  decide

/-! ## Strict FIFO -/

/-- The queue is a number of values that were never taken, and the pending ones. -/
structure QueueOrdered (events : List (Recycling.Event ULongPtr)) (queue : List ULong) : Prop where
  inOrder : Recycling.InOrder events
  split : ∃ fresh rest, queue = fresh ++ rest ∧
    Recycling.pending events = rest.map phpEncodeHandle

theorem nodup_map_encode {l : List ULong} (hnodup : l.Nodup)
    (hsmall : ∀ v ∈ l, v.toNat < 2 ^ 24) : (l.map phpEncodeHandle).Nodup := by
  refine List.Nodup.map_on (fun a ha b hb hab => ?_) hnodup
  have hdecode := congrArg phpDecodeHandle hab
  rw [phpDecodeHandle_encode (hsmall a ha), phpDecodeHandle_encode (hsmall b hb)] at hdecode
  exact hdecode

theorem QueueOrdered.move {client client' : HandleClient} {queue queue' : List ULong}
    (h : QueueOrdered client.events queue) (hmove : QueueMove client client' queue queue')
    (hnodup : queue.Nodup) (hsmall : ∀ v ∈ queue, v.toNat < 2 ^ 24) :
    QueueOrdered client'.events queue' := by
  obtain ⟨fresh, rest, hqueue, hpending⟩ := h.split
  cases hmove with
  | same hevents hsame =>
      rw [hevents, hsame]
      exact h
  | given v hevents hgiven =>
      rw [hevents]
      refine ⟨h.inOrder.append_given, fresh, rest ++ [v], ?_, ?_⟩
      · rw [hgiven, hqueue, List.append_assoc]
      · rw [Recycling.pending_append_given, hpending, List.map_append]
        rfl
  | taken v block hv hevents htaken hgone =>
      have hrest : ∀ w ∈ rest, w ∈ queue := by
        intro w hw
        rw [hqueue]
        exact List.mem_append_right _ hw
      have hpending_nodup : (Recycling.pending client.events).Nodup := by
        rw [hqueue] at hnodup
        rw [hpending]
        exact nodup_map_encode hnodup.of_append_right fun w hw => hsmall w (hrest w hw)
      rw [hqueue, ← List.append_assoc] at htaken
      rw [hevents]
      -- The value is the first of those that were never taken, or there are none of these.
      cases hfront : block ++ fresh with
      | nil =>
          rw [hfront, List.nil_append] at htaken
          rw [← htaken, List.map_cons] at hpending
          refine ⟨h.inOrder.append_taken hpending_nodup fun _ => ⟨_, hpending⟩, [], queue', rfl, ?_⟩
          rw [Recycling.pending_append_taken, hpending, List.erase_cons_head]
      | cons w l =>
          rw [hfront, List.cons_append] at htaken
          obtain ⟨-, htail⟩ := List.cons.inj htaken
          have hnot : phpEncodeHandle v ∉ Recycling.pending client.events := by
            rw [hpending]
            intro hmem
            obtain ⟨x, hx, hsame⟩ := List.mem_map.mp hmem
            have hdecode := congrArg phpDecodeHandle hsame
            rw [phpDecodeHandle_encode (hsmall x (hrest x hx)), phpDecodeHandle_encode hv] at hdecode
            rw [htail] at hgone
            exact hgone (List.mem_append_right _ (hdecode ▸ hx))
          refine ⟨h.inOrder.append_taken hpending_nodup fun hmem => absurd hmem hnot, l, rest, htail,
            ?_⟩
          rw [Recycling.pending_append_taken, List.erase_of_not_mem hnot, hpending]

theorem ordered_run {start table : PhHandleTable} {client : HandleClient} {main alt : List ULong}
    (hstart : Represents .start start main alt) (hstrict : start.strictFifo = true)
    (hrun : HandleRun KeepsFlags start client table) :
    table.strictFifo = true ∧ ∃ main alt, Represents client table main alt ∧
      QueueOrdered client.events (main ++ alt.reverse) := by
  induction hrun with
  | start =>
      exact ⟨hstrict, main, alt, hstart, Recycling.inOrder_nil, main ++ alt.reverse, [],
        (List.append_nil _).symm, rfl⟩
  | step run hkind hpermits hperform ih =>
      obtain ⟨hfifo, main, alt, hrep, hordered⟩ := ih
      obtain ⟨result, table', main', alt', hstep, -, hrep', hflags, hmove⟩ :=
        perform_step hrep hpermits
      rw [hperform, Option.some.injEq] at hstep
      obtain ⟨rfl, rfl⟩ := Prod.mk.inj hstep
      have hqueue : (main ++ alt.reverse).Perm (main ++ alt) :=
        (List.reverse_perm alt).append_left main
      refine ⟨?_, main', alt', hrep', hordered.move (hmove hfifo hkind)
        (hqueue.nodup_iff.mpr hrep.lists.nodup) fun v hv => ?_⟩
      · rw [strictFifo, hflags hkind]
        exact hfifo
      · have := hrep.lists.below v (hqueue.mem_iff.mp hv)
        have := hrep.lists.placed.nextValue_le
        omega

/-- Handles that were destroyed come back in the order in which they were destroyed. -/
theorem strictFifo_inOrder {memory : Nat → PhHandleTableEntry} {granted : Nat → Bool}
    {created start table : PhHandleTable} {client : HandleClient}
    (hcreate : phCreateHandleTable memory granted = some created)
    (hset : created.phSetInformationHandleTable 1 = (true, start))
    (hrun : HandleRun KeepsFlags start client table) :
    Recycling.InOrder client.events ∧
      ∀ call, client.permits call →
        ∃ result table', table.perform call = some (result, table') := by
  obtain ⟨hflag, hstart⟩ : start.strictFifo = true ∧ Represents .start start (freshValues 0) [] := by
    have h := represents_start hcreate
    rw [phSetInformationHandleTable, if_pos (by decide)] at hset
    obtain rfl := (Prod.mk.inj hset).2
    exact ⟨by show decide ((1 : ULong) &&& 1 ≠ 0) = true; decide, h.lists.congr rfl rfl rfl rfl rfl rfl, h.live_iff, h.contents, h.free, h.held,
      h.total⟩
  obtain ⟨-, main, alt, hrep, hordered⟩ := ordered_run hstart hflag hrun
  refine ⟨hordered.inOrder, fun call hpermits => ?_⟩
  obtain ⟨result, table', -, -, hperform, -⟩ := perform_step hrep hpermits
  exact ⟨result, table', hperform⟩

theorem strictFifo_inOrder_created :
    ∃ start client table, HandleRun KeepsFlags start client table ∧
      client.events = [.taken 4] ∧ Recycling.InOrder client.events := by
  obtain ⟨created, hcreate⟩ : ∃ created,
      phCreateHandleTable (fun _ => ⟨0, 0⟩) (fun _ => true) = some created := ⟨_, rfl⟩
  obtain ⟨start, hset⟩ : ∃ start, created.phSetInformationHandleTable 1 = (true, start) :=
    ⟨_, if_pos (by decide)⟩
  obtain ⟨result, table, hperform⟩ := (strictFifo_inOrder hcreate hset .start).2
    (.create (fun _ => true) ⟨4, 9⟩) trivial
  have hresult : ((phCreateHandleTable (fun _ => ⟨0, 0⟩) fun _ => true).bind fun created =>
      ((created.phSetInformationHandleTable 1).2.perform (.create (fun _ => true) ⟨4, 9⟩)).map
        Prod.fst) = some (.handle (some 4)) := by
    decide
  rw [hcreate, Option.bind_some, hset, hperform, Option.map_some, Option.some.injEq] at hresult
  subst hresult
  have hrun : HandleRun KeepsFlags start
      (HandleClient.start.after (.create (fun _ => true) ⟨4, 9⟩) (.handle (some 4))) table :=
    .step .start trivial trivial hperform
  exact ⟨start, _, table, hrun, rfl, (strictFifo_inOrder hcreate hset hrun).1⟩

end SystemInformer.PhLib
