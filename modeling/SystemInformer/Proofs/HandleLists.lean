import SystemInformer.Lib.Links
import SystemInformer.PhLib.HandleTable

/-!
# Free lists of handle tables

The level 0 tables are placed in the order in which they were allocated, whatever the number of
levels, so the entry of a value is the one whose place is the value. The two free lists are chains
through `NextFreeValue`. Read from the front of the main list and then from the back of the
alternate one they are a queue: a value that is freed under strict FIFO goes to its end, the
alternate list is turned round when the main one is empty, which leaves the queue as it is, and
new values come to its front.
-/

namespace SystemInformer.PhLib

open BitField PhHandleTable

/-! ## Entries and links -/

@[simp] theorem nextFreeValue_setNextFreeValue (entry : PhHandleTableEntry) (v : ULong) :
    (entry.setNextFreeValue v).nextFreeValue = v :=
  get_put (by decide) v entry.value2

@[simp] theorem value_setNextFreeValue (entry : PhHandleTableEntry) (v : ULong) :
    (entry.setNextFreeValue v).value = entry.value := rfl

def listed (value : ULong) : Option ULong :=
  if value = phHandleValueInvalid then none else some value

@[simp] theorem listed_invalid : listed phHandleValueInvalid = none := if_pos rfl

theorem listed_of_ne {v : ULong} (h : v ≠ phHandleValueInvalid) : listed v = some v := if_neg h

theorem listed_eq_none {v : ULong} : listed v = none ↔ v = phHandleValueInvalid := by
  rw [listed]
  split
  · next h => simp [h]
  · next h => simp [h]

theorem listed_eq_some {v a : ULong} (h : listed v = some a) : v = a := by
  rw [listed] at h
  split at h
  · cases h
  · exact Option.some.inj h

namespace PhHandleTable

variable {table : PhHandleTable}

def link (table : PhHandleTable) (value : ULong) : Option ULong :=
  listed (table.memory value.toNat).nextFreeValue

theorem link_congr {table' : PhHandleTable} {v : ULong}
    (h : table'.memory v.toNat = table.memory v.toNat) : table'.link v = table.link v := by
  rw [link, link, h]

theorem memory_setNextFreeValue_of_ne {v w x : ULong} (h : w ≠ v) :
    (table.setNextFreeValue v.toNat x).memory w.toNat = table.memory w.toNat :=
  Function.update_of_ne (fun heq => h (BitVec.eq_of_toNat_eq heq)) _ _

theorem link_setNextFreeValue_self (v x : ULong) :
    (table.setNextFreeValue v.toNat x).link v = listed x := by
  rw [link, setNextFreeValue, setEntry]
  simp

theorem link_setNextFreeValue_of_ne {v w x : ULong} (h : w ≠ v) :
    (table.setNextFreeValue v.toNat x).link w = table.link w :=
  link_congr (memory_setNextFreeValue_of_ne h)

@[simp] theorem value_memory_setNextFreeValue (e a : Nat) (x : ULong) :
    ((table.setNextFreeValue e x).memory a).value = (table.memory a).value := by
  rw [setNextFreeValue, setEntry]
  by_cases h : a = e
  · simp [h]
  · simp [Function.update_of_ne h]

end PhHandleTable

/-! ## Levels -/

/-- The level 0 tables stand in their order of allocation. -/
def Levels : HandleTableValue → Nat → Prop
  | .level0 table0, allocated => table0 = 0 ∧ allocated = 1
  | .level1 table1, allocated => allocated ≤ 256 ∧ ∀ i < allocated, table1 i = some i
  | .level2 table2, allocated =>
      256 < allocated ∧ ∀ i < 256,
        (256 * i < allocated → ∃ table1, table2 i = some table1 ∧
          ∀ j < 256, 256 * i + j < allocated → table1 j = some (256 * i + j)) ∧
        (allocated ≤ 256 * i → table2 i = none)

theorem Levels.extend {table2 : Nat → Option (Nat → Option Nat)} {table1 : Nat → Option Nat}
    {allocated : Nat} (h : Levels (.level2 table2) allocated) (hroom : allocated < 65536)
    (hnew : ∀ j < 256, 256 * (allocated / 256) + j < allocated + 1 →
      table1 j = some (256 * (allocated / 256) + j)) :
    Levels (.level2 (Function.update table2 (allocated / 256) (some table1))) (allocated + 1) := by
  obtain ⟨hmany, hslots⟩ := h
  refine ⟨by omega, fun i hlt => ?_⟩
  by_cases hne : i = allocated / 256
  · rw [hne, Function.update_self]
    exact ⟨fun _ => ⟨table1, rfl, hnew⟩, fun _ => by omega⟩
  · rw [Function.update_of_ne hne]
    refine ⟨fun hbelow => ?_, fun habove => (hslots i hlt).2 (by omega)⟩
    obtain ⟨old, hsome, hinner⟩ := (hslots i hlt).1 (by omega)
    exact ⟨old, hsome, fun j hj hij => hinner j hj (by omega)⟩

structure Placed (table : PhHandleTable) : Prop where
  nextValue : table.nextValue.toNat = 256 * table.allocated
  pos : 0 < table.allocated
  most : table.allocated ≤ 65536
  levels : Levels table.tableValue table.allocated

namespace Placed

variable {table table' : PhHandleTable} {v : ULong}

theorem congr (h : Placed table) (hnext : table'.nextValue = table.nextValue)
    (hallocated : table'.allocated = table.allocated)
    (hvalue : table'.tableValue = table.tableValue) : Placed table' := by
  refine ⟨?_, ?_, ?_, ?_⟩
  · rw [hnext, hallocated, h.nextValue]
  · rw [hallocated]
    exact h.pos
  · rw [hallocated]
    exact h.most
  · rw [hvalue, hallocated]
    exact h.levels

theorem nextValue_le (h : Placed table) : table.nextValue.toNat ≤ 2 ^ 24 := by
  have := h.nextValue
  have := h.most
  omega

theorem ne_invalid (h : Placed table) (hv : v.toNat < table.nextValue.toNat) :
    v ≠ phHandleValueInvalid := by
  rintro rfl
  have := h.nextValue_le
  rw [phHandleValueInvalid, BitVec.toNat_allOnes] at hv
  omega

end Placed

theorem toNat_and_ff (v : ULong) : (v &&& 0xff).toNat = v.toNat % 256 := by
  rw [BitVec.toNat_and]
  exact Nat.and_two_pow_sub_one_eq_mod v.toNat 8

theorem toNat_shift_eight (v : ULong) : (v >>> 8).toNat = v.toNat / 256 := by
  rw [BitVec.toNat_ushiftRight, Nat.shiftRight_eq_div_pow]

theorem toNat_shift_sixteen (v : ULong) : (v >>> 16).toNat = v.toNat / 65536 := by
  rw [BitVec.toNat_ushiftRight, Nat.shiftRight_eq_div_pow]

theorem entryAddress_of_lt {table0 : Nat} {index : ULong} (h : index.toNat < 256) :
    entryAddress table0 index = some (256 * table0 + index.toNat) := if_pos h

theorem tableSlot_of_lt {α : Type} {table : Nat → Option α} {index : ULong}
    (h : index.toNat < 256) : tableSlot table index = table index.toNat := if_pos h

theorem lookup_of_placed {table : PhHandleTable} {v : ULong} (h : Placed table)
    (hv : v.toNat < table.nextValue.toNat) :
    table.phpLookupHandleTableEntry v = some (some v.toNat) := by
  have hnext := h.nextValue
  have hmost := h.most
  have hlevels := h.levels
  have hlow := toNat_and_ff v
  have hlt : (v &&& 0xff).toNat < 256 := by omega
  rw [phpLookupHandleTableEntry, if_neg (by rw [BitVec.le_def]; omega)]
  cases htable : table.tableValue with
  | level0 table0 =>
      rw [htable] at hlevels
      obtain ⟨rfl, hone⟩ := hlevels
      show (entryAddress 0 v).map some = _
      rw [entryAddress_of_lt (by omega), Nat.mul_zero, Nat.zero_add]
      rfl
  | level1 table1 =>
      rw [htable] at hlevels
      obtain ⟨hfew, hslots⟩ := hlevels
      have hhigh := toNat_shift_eight v
      show ((tableSlot table1 (v >>> 8)).bind fun table0 =>
        (entryAddress table0 (v &&& 0xff)).map some) = _
      rw [tableSlot_of_lt (by omega), hslots _ (by omega), Option.bind_some,
        entryAddress_of_lt hlt, hhigh, hlow, Option.map_some]
      exact congrArg (fun n => some (some n)) (by omega)
  | level2 table2 =>
      rw [htable] at hlevels
      obtain ⟨hmany, hslots⟩ := hlevels
      have htop := toNat_shift_sixteen v
      have hmiddle : ((v >>> 8) &&& 0xff).toNat = v.toNat / 256 % 256 := by
        rw [toNat_and_ff, toNat_shift_eight]
      obtain ⟨table1, hsome, hinner⟩ := (hslots (v.toNat / 65536) (by omega)).1 (by omega)
      show ((tableSlot table2 (v >>> 16)).bind fun table1 =>
        (tableSlot table1 ((v >>> 8) &&& 0xff)).bind fun table0 =>
          (entryAddress table0 (v &&& 0xff)).map some) = _
      rw [tableSlot_of_lt (by omega), htop, hsome, Option.bind_some, tableSlot_of_lt (by omega),
        hmiddle, hinner _ (by omega) (by omega), Option.bind_some, entryAddress_of_lt hlt, hlow,
        Option.map_some]
      exact congrArg (fun n => some (some n)) (by omega)

theorem lookup_of_le {table : PhHandleTable} {v : ULong}
    (hv : table.nextValue.toNat ≤ v.toNat) : table.phpLookupHandleTableEntry v = some none :=
  if_pos (BitVec.le_def.mpr hv)

/-- Why no level 0 table is added. -/
def Refused (table : PhHandleTable) (granted : Nat → Bool) : Prop :=
  (∃ n, granted n = false) ∨ table.allocated = 65536

theorem addLevel0_spec {table : PhHandleTable} (h : Placed table) (granted : Nat → Bool) :
    (table.addLevel0 granted = some none ∧ Refused table granted) ∨
      ∃ tableValue, table.addLevel0 granted = some (some (table.allocated,
          { table.phpCreateHandleTableLevel0.2 with tableValue })) ∧
        table.allocated < 65536 ∧ Levels tableValue (table.allocated + 1) := by
  have hnext := h.nextValue
  have hmost := h.most
  have hlevels := h.levels
  have hrefused : ∀ n, granted n = false → Refused table granted := fun n hn => .inl ⟨n, hn⟩
  rw [addLevel0]
  cases htable : table.tableValue with
  | level0 table0 =>
      rw [htable] at hlevels
      obtain ⟨rfl, hone⟩ := hlevels
      cases hg0 : granted 0 with
      | false => exact .inl ⟨rfl, hrefused 0 hg0⟩
      | true =>
      cases hg1 : granted 1 with
      | false => exact .inl ⟨rfl, hrefused 1 hg1⟩
      | true =>
      refine .inr ⟨_, rfl, by omega, by omega, fun i hi => ?_⟩
      by_cases hi1 : i = 1
      · rw [hi1, Function.update_self, ← hone]
      · obtain rfl : i = 0 := by omega
        rfl
  | level1 table1 =>
      rw [htable] at hlevels
      obtain ⟨hfew, hslots⟩ := hlevels
      have hi : table.nextValue.toNat / phHandleTableLevelEntries = table.allocated := by
        rw [hnext, phHandleTableLevelEntries]
        omega
      simp only [hi]
      by_cases hroom : table.allocated < phHandleTableLevelEntries
      · rw [if_pos hroom]
        rw [phHandleTableLevelEntries] at hroom
        cases hg0 : granted 0 with
        | false => exact .inl ⟨rfl, hrefused 0 hg0⟩
        | true =>
        refine .inr ⟨_, rfl, by omega, by omega, fun i hlt => ?_⟩
        by_cases hlast : i = table.allocated
        · rw [hlast, Function.update_self]
          rfl
        · rw [Function.update_of_ne hlast]
          exact hslots i (by omega)
      · rw [if_neg hroom]
        rw [phHandleTableLevelEntries] at hroom
        have hfull : table.allocated = 256 := by omega
        cases hg0 : granted 0 with
        | false => exact .inl ⟨rfl, hrefused 0 hg0⟩
        | true =>
        cases hg1 : granted 1 with
        | false => exact .inl ⟨rfl, hrefused 1 hg1⟩
        | true =>
        cases hg2 : granted 2 with
        | false => exact .inl ⟨rfl, hrefused 2 hg2⟩
        | true =>
        refine .inr ⟨_, rfl, by omega, by omega, fun i hlt => ⟨fun hused => ?_, fun hunused => ?_⟩⟩
        · by_cases hi1 : i = 1
          · rw [hi1]
            refine ⟨_, Function.update_self .., fun j hj hbelow => ?_⟩
            obtain rfl : j = 0 := by omega
            exact congrArg some hfull
          · obtain rfl : i = 0 := by omega
            refine ⟨table1, rfl, fun j hj hbelow => ?_⟩
            rw [hslots j (by omega), Nat.mul_zero, Nat.zero_add]
        · rw [Function.update_of_ne (by omega), Function.update_of_ne (by omega)]
  | level2 table2 =>
      rw [htable] at hlevels
      obtain ⟨hmany, hslots⟩ := hlevels
      have hi : table.nextValue.toNat / (phHandleTableLevelEntries * phHandleTableLevelEntries) =
          table.allocated / 256 := by
        rw [hnext, phHandleTableLevelEntries]
        omega
      simp only [hi]
      by_cases hfull : phHandleTableLevelEntries ≤ table.allocated / 256
      · rw [if_pos hfull]
        rw [phHandleTableLevelEntries] at hfull
        exact .inl ⟨rfl, .inr (by omega)⟩
      rw [if_neg hfull]
      rw [phHandleTableLevelEntries] at hfull
      obtain ⟨hused, hunused⟩ := hslots (table.allocated / 256) (by omega)
      by_cases hpart : 256 * (table.allocated / 256) < table.allocated
      · obtain ⟨table1, hsome, hinner⟩ := hused hpart
        rw [hsome]
        have hj : (table.nextValue.toNat - table.allocated / 256 *
            (phHandleTableLevelEntries * phHandleTableLevelEntries)) /
            phHandleTableLevelEntries = table.allocated % 256 := by
          rw [hnext, phHandleTableLevelEntries]
          omega
        cases hg0 : granted 0 with
        | false => exact .inl ⟨rfl, hrefused 0 hg0⟩
        | true =>
        refine .inr ⟨.level2 (Function.update table2 (table.allocated / 256)
          (some (Function.update table1 (table.allocated % 256) (some table.allocated)))), ?_,
          by omega, Levels.extend ⟨hmany, hslots⟩ (by omega) fun j hj256 hbelow => ?_⟩
        · show (if (table.nextValue.toNat - _) / _ < _ then _ else _) = _
          rw [if_pos (by rw [hj, phHandleTableLevelEntries]; omega)]
          simp only [phpCreateHandleTableLevel0, hj]
        · by_cases hlast : j = table.allocated % 256
          · rw [hlast, Function.update_self]
            exact congrArg some (by omega)
          · rw [Function.update_of_ne hlast]
            exact hinner j hj256 (by omega)
      · rw [hunused (by omega)]
        cases hg0 : granted 0 with
        | false => exact .inl ⟨rfl, hrefused 0 hg0⟩
        | true =>
        cases hg1 : granted 1 with
        | false => exact .inl ⟨rfl, hrefused 1 hg1⟩
        | true =>
        refine .inr ⟨_, rfl, by omega, Levels.extend ⟨hmany, hslots⟩ (by omega)
          fun j hj256 hbelow => ?_⟩
        obtain rfl : j = 0 := by omega
        have hwhole : table.allocated = 256 * (table.allocated / 256) + 0 := by omega
        exact congrArg some hwhole

/-! ## Lists -/

/-- The free lists are `main` and `alt`. -/
structure FreeLists (table : PhHandleTable) (main alt : List ULong) : Prop where
  placed : Placed table
  main_chain : Links.Chain table.link (listed table.freeValue) main
  alt_chain : Links.Chain table.link (listed table.freeValueAlt) alt
  nodup : (main ++ alt).Nodup
  below : ∀ v ∈ main ++ alt, v.toNat < table.nextValue.toNat

/-- What a search for a free value leaves as it is, apart from the links of `free`, when the
values of `block` are added. -/
structure Refilled (table table' : PhHandleTable) (free block : List ULong) : Prop where
  flags : table'.flags = table.flags
  count : table'.count = table.count
  nextValue : table'.nextValue.toNat = table.nextValue.toNat + block.length
  mem_block : ∀ v, v ∈ block ↔
    table.nextValue.toNat ≤ v.toNat ∧ v.toNat < table'.nextValue.toNat
  fresh : ∀ v ∈ block, (table'.memory v.toNat).value = 1
  value : ∀ v : ULong, v.toNat < table.nextValue.toNat →
    (table'.memory v.toNat).value = (table.memory v.toNat).value
  others : ∀ v : ULong, v.toNat < table.nextValue.toNat → v ∉ free →
    table'.memory v.toNat = table.memory v.toNat

theorem length_le_of_below {l : List ULong} {n : Nat} (hnodup : l.Nodup)
    (hbelow : ∀ v ∈ l, v.toNat < n) : l.length ≤ n := by
  have hmap : (l.map BitVec.toNat).Nodup :=
    hnodup.map fun a b h => BitVec.eq_of_toNat_eq h
  have hsub : l.map BitVec.toNat ⊆ List.range n := by
    intro k hk
    obtain ⟨v, hv, rfl⟩ := List.mem_map.mp hk
    exact List.mem_range.mpr (hbelow v hv)
  have hlength := (List.subperm_of_subset hmap hsub).length_le
  rw [List.length_map, List.length_range] at hlength
  exact hlength

theorem Refilled.rfl' {table : PhHandleTable} {free : List ULong} :
    Refilled table table free [] := by
  refine ⟨rfl, rfl, rfl, fun v => ?_, fun v hv => absurd hv List.not_mem_nil, fun v _ => rfl,
    fun v _ _ => rfl⟩
  simp

theorem Refilled.trans {table table' table'' : PhHandleTable} {free free' block : List ULong}
    (h : Refilled table table' free []) (h' : Refilled table' table'' free' block)
    (hfree : ∀ v ∈ free', v ∈ free) : Refilled table table'' free block := by
  have hnext : table'.nextValue.toNat = table.nextValue.toNat := h.nextValue
  refine ⟨h'.flags.trans h.flags, h'.count.trans h.count, ?_, fun v => ?_, h'.fresh,
    fun v hv => ?_, fun v hv hnot => ?_⟩
  · rw [h'.nextValue, hnext]
  · rw [h'.mem_block, hnext]
  · rw [h'.value v (by rw [hnext]; exact hv), h.value v hv]
  · rw [h'.others v (by rw [hnext]; exact hv) fun hmem => hnot (hfree v hmem), h.others v hv hnot]

namespace FreeLists

variable {table : PhHandleTable} {main alt : List ULong}

theorem congr {table' : PhHandleTable} (h : FreeLists table main alt)
    (hmemory : table'.memory = table.memory) (htable : table'.tableValue = table.tableValue)
    (hallocated : table'.allocated = table.allocated) (hnext : table'.nextValue = table.nextValue)
    (hfree : table'.freeValue = table.freeValue)
    (halt : table'.freeValueAlt = table.freeValueAlt) : FreeLists table' main alt := by
  have hlink : table'.link = table.link := by
    funext v
    exact link_congr (congrFun hmemory v.toNat)
  refine ⟨h.placed.congr hnext hallocated htable, ?_, ?_, h.nodup, fun v hv => ?_⟩
  · rw [hlink, hfree]
    exact h.main_chain
  · rw [hlink, halt]
    exact h.alt_chain
  · rw [hnext]
    exact h.below v hv

theorem freeValue_of_nil (h : FreeLists table [] alt) :
    table.freeValue = phHandleValueInvalid := by
  have hmain := h.main_chain
  generalize hhead : listed table.freeValue = head at hmain
  cases hmain
  exact listed_eq_none.mp hhead

theorem freeValueAlt_of_nil (h : FreeLists table main []) :
    table.freeValueAlt = phHandleValueInvalid := by
  have halt := h.alt_chain
  generalize hhead : listed table.freeValueAlt = head at halt
  cases halt
  exact listed_eq_none.mp hhead

theorem freeValue_of_cons {v : ULong} (h : FreeLists table (v :: main) alt) :
    table.freeValue = v ∧ Links.Chain table.link (table.link v) main := by
  have hmain := h.main_chain
  generalize hhead : listed table.freeValue = head at hmain
  cases hmain with
  | cons rest => exact ⟨listed_eq_some hhead, rest⟩

end FreeLists

/-! ## New values -/

def freshValues (n : Nat) : List ULong := (List.range' n 256).map (BitVec.ofNat 32)

theorem mem_freshValues {n : Nat} (hn : n + 256 ≤ 2 ^ 24) (v : ULong) :
    v ∈ freshValues n ↔ n ≤ v.toNat ∧ v.toNat < n + 256 := by
  rw [freshValues, List.mem_map]
  constructor
  · rintro ⟨k, hk, rfl⟩
    obtain ⟨hle, hlt⟩ := List.mem_range'_1.mp hk
    rw [BitVec.toNat_ofNat, Nat.mod_eq_of_lt (by omega)]
    exact ⟨hle, hlt⟩
  · rintro ⟨hle, hlt⟩
    exact ⟨v.toNat, List.mem_range'_1.mpr ⟨hle, hlt⟩, by simp⟩

theorem nodup_freshValues {n : Nat} (hn : n + 256 ≤ 2 ^ 24) : (freshValues n).Nodup := by
  refine List.Nodup.map_on (fun a ha b hb hab => ?_) List.nodup_range'
  obtain ⟨-, ha⟩ := List.mem_range'_1.mp ha
  obtain ⟨-, hb⟩ := List.mem_range'_1.mp hb
  have hnat := congrArg BitVec.toNat hab
  rw [BitVec.toNat_ofNat, BitVec.toNat_ofNat, Nat.mod_eq_of_lt (by omega),
    Nat.mod_eq_of_lt (by omega)] at hnat
  exact hnat

theorem length_freshValues (n : Nat) : (freshValues n).length = 256 := by
  rw [freshValues, List.length_map, List.length_range']

/-- The entries of a new level 0 table lead to one another, and the last one to the list that was
there before. -/
theorem chain_freshValues {next : ULong → Option ULong} {n : Nat} {main : List ULong}
    (hstep : ∀ i, n ≤ i → i < n + 255 →
      next (BitVec.ofNat 32 i) = some (BitVec.ofNat 32 (i + 1)))
    (hmain : Links.Chain next (next (BitVec.ofNat 32 (n + 255))) main) :
    Links.Chain next (some (BitVec.ofNat 32 n)) (freshValues n ++ main) := by
  rw [freshValues, List.range'_concat, List.map_append, List.append_assoc]
  refine Links.chain_range' hstep ?_
  rw [Nat.one_mul]
  exact .cons hmain

theorem freshEntry_next {baseValue : ULong} {old : PhHandleTableEntry} {i : Nat}
    (hi : i + 1 < 256) : (freshEntry baseValue old i).nextFreeValue =
      baseValue + BitVec.ofNat 32 (i + 1) := by
  rw [freshEntry, nextFreeValue_setNextFreeValue, phHandleTableLevelEntries, if_pos hi]

theorem expand_spec {table : PhHandleTable} {main alt : List ULong}
    (h : FreeLists table main alt) (granted : Nat → Bool) :
    (table.phpAllocateMoreHandleTableEntries granted = some (false, table) ∧
        Refused table granted) ∨
      ∃ table', table.phpAllocateMoreHandleTableEntries granted = some (true, table') ∧
        FreeLists table' (freshValues table.nextValue.toNat ++ main) alt ∧
        Refilled table table' [] (freshValues table.nextValue.toNat) := by
  rcases addLevel0_spec h.placed granted with ⟨hnone, hrefused⟩ |
    ⟨tableValue, hsome, hroom, hlevels⟩
  · refine .inl ⟨?_, hrefused⟩
    rw [phpAllocateMoreHandleTableEntries, hnone]
    rfl
  have hnext := h.placed.nextValue
  have hlarge : (table.nextValue + BitVec.ofNat 32 phHandleTableLevelEntries).toNat =
      table.nextValue.toNat + 256 := by
    rw [BitVec.toNat_add, phHandleTableLevelEntries]
    exact Nat.mod_eq_of_lt (by simp; omega)
  generalize hn : table.nextValue.toNat = n at hnext hlarge
  have hlast : phHandleTableLevelEntries * table.allocated + (phHandleTableLevelEntries - 1) =
      (BitVec.ofNat 32 (n + 255)).toNat := by
    rw [BitVec.toNat_ofNat, Nat.mod_eq_of_lt (by omega), phHandleTableLevelEntries]
    omega
  -- The table with the new entries, before they are pushed.
  obtain ⟨grown, hgrown⟩ : ∃ grown : PhHandleTable, grown =
      { table.phpCreateHandleTableLevel0.2 with
        tableValue
        nextValue := table.nextValue + BitVec.ofNat 32 phHandleTableLevelEntries } := ⟨_, rfl⟩
  obtain ⟨pushed, hpushed⟩ : ∃ pushed : PhHandleTable, pushed =
      { grown.setNextFreeValue (BitVec.ofNat 32 (n + 255)).toNat table.freeValue with
        freeValue := table.nextValue } := ⟨_, rfl⟩
  have hmemory : ∀ a, grown.memory a = if a / 256 = table.allocated then
      freshEntry table.nextValue (table.memory a) (a % 256) else table.memory a := by
    intro a
    rw [hgrown]
    rfl
  have hnextValue : pushed.nextValue.toNat = n + 256 := by
    rw [hpushed, hgrown]
    exact hlarge
  have hplaced : Placed pushed := by
    refine ⟨?_, ?_, ?_, ?_⟩
    · rw [hnextValue, hpushed, hgrown]
      show _ = 256 * (table.allocated + 1)
      omega
    · rw [hpushed, hgrown]
      exact Nat.succ_pos _
    · rw [hpushed, hgrown]
      exact hroom
    · rw [hpushed, hgrown]
      exact hlevels
  have hold : ∀ v : ULong, v.toNat < n → pushed.memory v.toNat = table.memory v.toNat := by
    intro v hv
    have hne : v ≠ BitVec.ofNat 32 (n + 255) := by
      rintro rfl
      rw [BitVec.toNat_ofNat, Nat.mod_eq_of_lt (by omega)] at hv
      omega
    rw [hpushed]
    show (grown.setNextFreeValue _ _).memory _ = _
    rw [memory_setNextFreeValue_of_ne hne, hmemory, if_neg (by omega)]
  have hvalue : ∀ v : ULong, n ≤ v.toNat → v.toNat < n + 256 →
      (pushed.memory v.toNat).value = 1 := by
    intro v hle hlt
    rw [hpushed]
    show ((grown.setNextFreeValue _ _).memory _).value = _
    rw [value_memory_setNextFreeValue, hmemory, if_pos (by omega)]
    rfl
  have hbelow : ∀ v ∈ main ++ alt, v.toNat < n := by
    intro v hv
    rw [← hn]
    exact h.below v hv
  have hfits : n + 256 ≤ 2 ^ 24 := by omega
  have hfar : ∀ v ∈ freshValues n, v ∉ main ++ alt := by
    intro v hv hmem
    have := (mem_freshValues hfits v).mp hv
    have := hbelow v hmem
    omega
  have hlast_link : pushed.link (BitVec.ofNat 32 (n + 255)) = listed table.freeValue := by
    rw [hpushed]
    exact link_setNextFreeValue_self _ _
  have hkeep : ∀ l : List ULong, (∀ v ∈ l, v ∈ main ++ alt) → ∀ head,
      Links.Chain table.link head l → Links.Chain pushed.link head l := fun l hl head hchain =>
    hchain.congr fun v hv => link_congr (hold v (hbelow v (hl v hv)))
  refine .inr ⟨pushed, ?_, ⟨hplaced, ?_, ?_, ?_, fun v hv => ?_⟩,
    ⟨?_, ?_, ?_, fun v => ?_, fun v hv => ?_, fun v hv => ?_, fun v hv _ => ?_⟩⟩
  · rw [phpAllocateMoreHandleTableEntries, hsome, hpushed, ← hlast, hgrown]
    rfl
  · have hfree : listed pushed.freeValue = some (BitVec.ofNat 32 n) := by
      have hne : table.nextValue ≠ phHandleValueInvalid := by
        intro heq
        rw [heq, phHandleValueInvalid, BitVec.toNat_allOnes] at hn
        omega
      rw [hpushed, ← hn]
      exact (listed_of_ne hne).trans (by simp)
    rw [hfree]
    refine chain_freshValues (fun i hle hlt => ?_) ?_
    · have hi : (BitVec.ofNat 32 i).toNat = i := Nat.mod_eq_of_lt (by omega)
      have hne : BitVec.ofNat 32 i ≠ BitVec.ofNat 32 (n + 255) := by
        intro heq
        have := congrArg BitVec.toNat heq
        rw [hi, BitVec.toNat_ofNat, Nat.mod_eq_of_lt (by omega)] at this
        omega
      have hsum : table.nextValue + BitVec.ofNat 32 (i % 256 + 1) = BitVec.ofNat 32 (i + 1) := by
        refine BitVec.eq_of_toNat_eq ?_
        rw [BitVec.toNat_add, BitVec.toNat_ofNat, BitVec.toNat_ofNat, hn]
        omega
      have hlink : pushed.link (BitVec.ofNat 32 i) = grown.link (BitVec.ofNat 32 i) := by
        rw [hpushed]
        exact link_setNextFreeValue_of_ne hne
      rw [hlink, link, hmemory, hi, if_pos (by omega), freshEntry_next (by omega), hsum]
      refine listed_of_ne fun heq => ?_
      have := congrArg BitVec.toNat heq
      rw [BitVec.toNat_ofNat, phHandleValueInvalid, BitVec.toNat_allOnes] at this
      omega
    · rw [hlast_link]
      exact hkeep main (fun v hv => List.mem_append_left _ hv) _ h.main_chain
  · have halt : pushed.freeValueAlt = table.freeValueAlt := by
      rw [hpushed, hgrown]
      rfl
    rw [halt]
    exact hkeep alt (fun v hv => List.mem_append_right _ hv) _ h.alt_chain
  · rw [List.append_assoc]
    exact List.Nodup.append (nodup_freshValues hfits) h.nodup fun v hv hmem => hfar v hv hmem
  · rw [List.append_assoc, List.mem_append] at hv
    rw [hnextValue]
    rcases hv with hv | hv
    · exact ((mem_freshValues hfits v).mp hv).2
    · have := hbelow v hv
      omega
  · rw [hpushed, hgrown]
    rfl
  · rw [hpushed, hgrown]
    rfl
  · rw [hnextValue, hn, length_freshValues]
  · rw [hn, hnextValue]
    exact mem_freshValues hfits v
  · obtain ⟨hle, hlt⟩ := (mem_freshValues hfits v).mp hv
    exact hvalue v hle hlt
  · rw [hn] at hv
    rw [hold v hv]
  · rw [hn] at hv
    exact hold v hv

/-! ## The alternate list -/

theorem reverseChain_spec {l acc : List ULong} {fuel : Nat} {table : PhHandleTable}
    {index lastIndex count : ULong} {firstEntry : Option Nat} (hplaced : Placed table)
    (hfuel : l.length < fuel) (hbelow : ∀ v ∈ index :: l, v.toNat < table.nextValue.toNat)
    (hnodup : (index :: l ++ acc).Nodup) (hchain : Links.Chain table.link (table.link index) l)
    (hacc : Links.Chain table.link (listed lastIndex) acc) :
    ∃ first count' memory,
      reverseChain fuel table index lastIndex count firstEntry =
        some (first, count', if lastIndex = phHandleValueInvalid then some index.toNat
          else firstEntry, { table with memory }) ∧
      Links.Chain { table with memory }.link (some first) (l.reverse ++ index :: acc) ∧
      Refilled table { table with memory } (index :: l) [] := by
  induction l generalizing fuel table index lastIndex count firstEntry acc with
  | nil =>
      obtain ⟨fuel, rfl⟩ : ∃ k, fuel = k + 1 := ⟨fuel - 1, by simp at hfuel; omega⟩
      have hindex := hbelow index List.mem_cons_self
      have hnext : (table.memory index.toNat).nextFreeValue = phHandleValueInvalid := by
        generalize hhead : table.link index = head at hchain
        cases hchain
        exact listed_eq_none.mp hhead
      rw [List.cons_append, List.nil_append, List.nodup_cons] at hnodup
      refine ⟨index, count + 1, (table.setNextFreeValue index.toNat lastIndex).memory, ?_, ?_, ?_⟩
      · rw [reverseChain, lookup_of_placed hplaced hindex]
        show (if (table.memory index.toNat).nextFreeValue = _ then _ else _) = _
        rw [if_pos hnext]
        rfl
      · refine .cons ?_
        show Links.Chain _ ((table.setNextFreeValue index.toNat lastIndex).link index) acc
        rw [link_setNextFreeValue_self]
        refine hacc.congr fun v hv => ?_
        exact link_setNextFreeValue_of_ne fun heq => hnodup.1 (heq ▸ hv)
      · refine ⟨rfl, rfl, rfl, fun v => ?_, fun v hv => absurd hv List.not_mem_nil,
          fun v _ => value_memory_setNextFreeValue .., fun v _ hv => ?_⟩
        · simp
        · exact memory_setNextFreeValue_of_ne fun heq => hv (heq ▸ List.mem_cons_self)
  | cons next l ih =>
      obtain ⟨fuel, rfl⟩ : ∃ k, fuel = k + 1 := ⟨fuel - 1, by simp at hfuel; omega⟩
      have hindex := hbelow index List.mem_cons_self
      have hne := hplaced.ne_invalid hindex
      have hnext_below := hbelow next (List.mem_cons_of_mem _ List.mem_cons_self)
      have hnext_ne := hplaced.ne_invalid hnext_below
      obtain ⟨hnext, hrest⟩ : (table.memory index.toNat).nextFreeValue = next ∧
          Links.Chain table.link (table.link next) l := by
        generalize hhead : table.link index = head at hchain
        cases hchain with
        | cons rest => exact ⟨listed_eq_some hhead, rest⟩
      have hall : (index :: (next :: (l ++ acc))).Nodup := hnodup
      obtain ⟨hhere, hnodup'⟩ := List.nodup_cons.mp hall
      obtain ⟨turned, hturned⟩ : ∃ turned, turned =
          table.setNextFreeValue index.toNat lastIndex := ⟨_, rfl⟩
      have hplaced' : Placed turned := by
        rw [hturned]
        exact hplaced.congr rfl rfl rfl
      have hnextValue : turned.nextValue = table.nextValue := by
        rw [hturned]
        rfl
      have hlinks : ∀ v, v ≠ index → turned.link v = table.link v := by
        intro v hv
        rw [hturned]
        exact link_setNextFreeValue_of_ne hv
      have hback : turned.link index = listed lastIndex := by
        rw [hturned]
        exact link_setNextFreeValue_self _ _
      have hpast : index ∉ l ++ acc := fun hmem => hhere (List.mem_cons_of_mem _ hmem)
      have hturn : Links.Chain turned.link (table.link index) (next :: l) ∧
          Links.Chain turned.link (some index) (index :: acc) :=
        Links.Chain.turn hchain hacc (fun hmem => hhere (List.mem_append_left acc hmem))
          (fun hmem => hpast (List.mem_append_right _ hmem)) hlinks hback
      obtain ⟨hrest', hacc'⟩ := hturn
      rw [link, hnext, listed_of_ne hnext_ne] at hrest'
      have hchain' : Links.Chain turned.link (turned.link next) l := by
        cases hrest' with
        | cons rest => exact rest
      rw [← listed_of_ne hne] at hacc'
      have hnodup'' : (next :: l ++ index :: acc).Nodup := by
        refine (List.perm_middle.nodup_iff).mpr (List.nodup_cons.mpr ⟨?_, ?_⟩)
        · exact fun hmem => hhere hmem
        · exact hnodup'
      obtain ⟨first, count', memory, heval, hfinal, hrefilled⟩ := @ih (index :: acc) fuel turned
        next index (count + 1)
        (if lastIndex = phHandleValueInvalid then some index.toNat else firstEntry) hplaced'
        (by rw [List.length_cons] at hfuel; omega)
        (fun v hv => by rw [hnextValue]; exact hbelow v (List.mem_cons_of_mem _ hv)) hnodup''
        hchain' hacc'
      refine ⟨first, count', memory, ?_, ?_, ?_⟩
      · rw [reverseChain, lookup_of_placed hplaced hindex]
        show (if (table.memory index.toNat).nextFreeValue = _ then _ else _) = _
        rw [if_neg (by rw [hnext]; exact hnext_ne), hnext]
        rw [if_neg hne] at heval
        rw [← hturned]
        refine heval.trans ?_
        rw [hturned]
        rfl
      · rw [List.reverse_cons, List.append_assoc]
        rw [hturned] at hfinal
        exact hfinal
      · have hstep : Refilled table turned (index :: next :: l) [] := by
          rw [hturned]
          refine ⟨rfl, rfl, rfl, fun v => ?_, fun v hv => absurd hv List.not_mem_nil,
            fun v _ => value_memory_setNextFreeValue .., fun v _ hv => ?_⟩
          · show v ∈ [] ↔ _ ∧ v.toNat < table.nextValue.toNat
            simp
          · exact memory_setNextFreeValue_of_ne fun heq => hv (heq ▸ List.mem_cons_self)
        have hall := hstep.trans hrefilled fun v hv => List.mem_cons_of_mem _ hv
        rw [hturned] at hall
        exact hall

theorem move_spec {table : PhHandleTable} {alt : List ULong} (h : FreeLists table [] alt)
    (hne : alt ≠ []) :
    ∃ index main table', table.phpMoveFreeHandleTableEntries = some (index, table') ∧
      FreeLists table' main [] ∧ main.Perm alt ∧
      (table.strictFifo = true → main = alt.reverse) ∧ Refilled table table' alt [] ∧
      (index = phHandleValueInvalid ∨ index = table'.freeValue) := by
  obtain ⟨first, rest, rfl⟩ := List.exists_cons_of_ne_nil hne
  have hmain := h.freeValue_of_nil
  have halt := h.alt_chain
  have hbelow : ∀ v ∈ first :: rest, v.toNat < table.nextValue.toNat := h.below
  have hnodup : (first :: rest).Nodup := h.nodup
  obtain ⟨hhead, hrest⟩ : table.freeValueAlt = first ∧
      Links.Chain table.link (table.link first) rest := by
    generalize hhead : listed table.freeValueAlt = head at halt
    cases halt with
    | cons rest => exact ⟨listed_eq_some hhead, rest⟩
  have hfirst : first ≠ phHandleValueInvalid :=
    h.placed.ne_invalid (hbelow first List.mem_cons_self)
  obtain ⟨taken, htaken⟩ : ∃ taken : PhHandleTable, taken =
      { table with freeValueAlt := phHandleValueInvalid } := ⟨_, rfl⟩
  have hplaced : Placed taken := by
    rw [htaken]
    exact h.placed.congr rfl rfl rfl
  cases hstrict : table.strictFifo with
  | false =>
      refine ⟨first, first :: rest, { taken with freeValue := first }, ?_,
        ⟨hplaced.congr rfl rfl rfl, ?_, ?_, ?_, ?_⟩, .refl _, fun h => absurd h Bool.false_ne_true, ?_,
        .inr rfl⟩
      · rw [phpMoveFreeHandleTableEntries, hhead]
        show (if first = _ then _ else if (!table.strictFifo && table.freeValue = _) then _
          else _) = _
        rw [if_neg hfirst, hstrict, hmain, htaken]
        rfl
      · show Links.Chain _ (listed first) _
        rw [listed_of_ne hfirst, htaken]
        exact .cons hrest
      · rw [htaken]
        exact .nil
      · rw [List.append_nil]
        exact hnodup
      · rw [List.append_nil, htaken]
        exact hbelow
      · rw [htaken]
        exact ⟨rfl, rfl, rfl, fun v => by simp, fun v hv => absurd hv List.not_mem_nil,
          fun v _ => rfl, fun v _ _ => rfl⟩
  | true =>
      have hfuel : rest.length < taken.nextValue.toNat + 1 := by
        have := length_le_of_below hnodup hbelow
        rw [List.length_cons] at this
        rw [htaken]
        show _ < table.nextValue.toNat + 1
        omega
      obtain ⟨index, count, memory, heval, hchain, hrefilled⟩ :=
        @reverseChain_spec rest [] (taken.nextValue.toNat + 1) taken first phHandleValueInvalid 0
          none hplaced hfuel (by rw [htaken]; exact hbelow) (by rw [List.append_nil]; exact hnodup)
          (by rw [htaken]; exact hrest) (by rw [listed_invalid]; exact .nil)
      rw [if_pos rfl] at heval
      obtain ⟨turned, hturned⟩ : ∃ turned : PhHandleTable, turned = { taken with memory } :=
        ⟨_, rfl⟩
      rw [← hturned] at heval hchain hrefilled
      obtain ⟨pushed, hpushed⟩ : ∃ pushed : PhHandleTable, pushed =
          { turned.setNextFreeValue first.toNat turned.freeValue with freeValue := index } :=
        ⟨_, rfl⟩
      have hfree : turned.freeValue = phHandleValueInvalid := by
        rw [hturned, htaken]
        exact hmain
      have hperm : (rest.reverse ++ [first]).Perm (first :: rest) := by
        rw [← List.reverse_cons]
        exact List.reverse_perm _
      have hpushed_chain : Links.Chain pushed.link (some index) (rest.reverse ++ [first]) := by
        refine Links.Chain.retarget hchain (fun v hv => ?_) ?_
        · rw [hpushed]
          refine link_setNextFreeValue_of_ne ?_
          rintro rfl
          exact (List.nodup_cons.mp hnodup).1 (List.mem_reverse.mp hv)
        · rw [hpushed]
          show Links.Chain _ ((turned.setNextFreeValue first.toNat turned.freeValue).link first) []
          rw [link_setNextFreeValue_self, hfree, listed_invalid]
          exact .nil
      have hindex : index ≠ phHandleValueInvalid := by
        have hmem : index ∈ rest.reverse ++ [first] := by
          generalize rest.reverse ++ [first] = l at hpushed_chain
          cases hpushed_chain
          exact List.mem_cons_self
        exact h.placed.ne_invalid (hbelow index (hperm.mem_iff.mp hmem))
      have hlast : Refilled turned pushed (first :: rest) [] := by
        rw [hpushed]
        refine ⟨rfl, rfl, rfl, fun v => ?_, fun v hv => absurd hv List.not_mem_nil,
          fun v _ => value_memory_setNextFreeValue .., fun v _ hv => ?_⟩
        · show v ∈ [] ↔ _ ∧ v.toNat < turned.nextValue.toNat
          simp
        · exact memory_setNextFreeValue_of_ne fun heq => hv (heq ▸ List.mem_cons_self)
      refine ⟨if count < phHandleTableFreeCount then phHandleValueInvalid else index,
        rest.reverse ++ [first], pushed, ?_, ⟨?_, ?_, ?_, ?_, fun v hv => ?_⟩, hperm,
        fun _ => List.reverse_cons.symm, ?_, ?_⟩
      · rw [phpMoveFreeHandleTableEntries, hhead]
        show (if first = _ then _ else if (!table.strictFifo && table.freeValue = _) then _
          else _) = _
        rw [if_neg hfirst, if_neg (by rw [hstrict]; simp), ← htaken, heval, hpushed]
        show (if ((PhHandleTable.strictFifo { turned.setNextFreeValue first.toNat turned.freeValue
          with freeValue := index }) && decide (count < phHandleTableFreeCount)) = true then _
          else _) = _
        have hsame : PhHandleTable.strictFifo { turned.setNextFreeValue first.toNat
            turned.freeValue with freeValue := index } = true := by
          rw [hturned, htaken]
          exact hstrict
        rw [hsame, Bool.true_and]
        by_cases hcount : count < phHandleTableFreeCount
        · rw [if_pos (decide_eq_true hcount), if_pos hcount]
        · rw [if_neg (by simpa using hcount), if_neg hcount]
      · rw [hpushed, hturned]
        exact hplaced.congr rfl rfl rfl
      · have hvalue : listed pushed.freeValue = some index := by
          rw [hpushed]
          exact listed_of_ne hindex
        rw [hvalue]
        exact hpushed_chain
      · have hvalue : listed pushed.freeValueAlt = none := by
          rw [hpushed, hturned, htaken]
          exact listed_invalid
        rw [hvalue]
        exact .nil
      · rw [List.append_nil]
        exact hperm.nodup_iff.mpr hnodup
      · rw [List.append_nil] at hv
        rw [hpushed, hturned, htaken]
        exact hbelow v (hperm.mem_iff.mp hv)
      · have hall := hrefilled.trans hlast fun v hv => hv
        rw [htaken] at hall
        exact ⟨hall.flags, hall.count, hall.nextValue, hall.mem_block, hall.fresh, hall.value,
          hall.others⟩
      · split
        · exact .inl rfl
        · exact .inr (by rw [hpushed])

/-! ## Taking a value -/

theorem refill_spec {table : PhHandleTable} {alt : List ULong} (h : FreeLists table [] alt)
    (granted : Nat → Bool) :
    (table.refill granted = some (none, table) ∧ alt = [] ∧ Refused table granted) ∨
      ∃ v main block table', table.refill granted = some (some v, table') ∧
        v = table'.freeValue ∧ v ≠ phHandleValueInvalid ∧ FreeLists table' main [] ∧
        main.Perm (block ++ alt) ∧ (table.strictFifo = true → main = block ++ alt.reverse) ∧
        Refilled table table' alt block := by
  have hsome : ∀ {table' : PhHandleTable} {v : ULong} {main : List ULong},
      FreeLists table' (v :: main) [] → table'.freeValue ≠ phHandleValueInvalid := by
    intro table' v main hlists
    rw [hlists.freeValue_of_cons.1]
    exact hlists.placed.ne_invalid (hlists.below v List.mem_cons_self)
  have hfresh : ∀ n l, ∃ v l', freshValues n ++ l = v :: l' := fun n l => ⟨_, _, rfl⟩
  by_cases halt : alt = []
  · -- The alternate list is empty, too.
    subst halt
    have hmove : table.phpMoveFreeHandleTableEntries = some (phHandleValueInvalid, table) := by
      have hvalue := h.freeValueAlt_of_nil
      rw [phpMoveFreeHandleTableEntries, if_pos hvalue, ← hvalue]
    rcases expand_spec h granted with ⟨hnone, hrefused⟩ | ⟨table', hexpand, hlists, hrefilled⟩
    · refine .inl ⟨?_, rfl, hrefused⟩
      rw [refill, hmove]
      show (table.phpAllocateMoreHandleTableEntries granted).bind _ = _
      rw [hnone]
      show (if (!false && decide (table.freeValue = phHandleValueInvalid)) = true then _
        else _) = _
      rw [h.freeValue_of_nil]
      rfl
    · obtain ⟨v, l, hl⟩ := hfresh table.nextValue.toNat []
      have hne : table'.freeValue ≠ phHandleValueInvalid := by
        rw [hl] at hlists
        exact hsome hlists
      refine .inr ⟨table'.freeValue, _, _, table', ?_, rfl, hne, hlists, .refl _, fun _ => rfl,
        hrefilled⟩
      rw [refill, hmove]
      show (table.phpAllocateMoreHandleTableEntries granted).bind _ = _
      rw [hexpand]
      rfl
  · obtain ⟨index, main, moved, hmove, hlists, hperm, horder, hrefilled, hindex⟩ :=
      move_spec h halt
    have hmain : main ≠ [] := fun hnil => halt (List.perm_nil.mp (hnil ▸ hperm.symm))
    obtain ⟨v, rest, rfl⟩ := List.exists_cons_of_ne_nil hmain
    have hmoved := hsome hlists
    by_cases hinvalid : index = phHandleValueInvalid
    · -- More values are wanted, but the ones of the alternate list would do.
      subst hinvalid
      rcases expand_spec hlists granted with ⟨hnone, -⟩ | ⟨table', hexpand, hlists', hmore⟩
      · refine .inr ⟨moved.freeValue, v :: rest, [], moved, ?_, rfl, hmoved, hlists, hperm, horder,
          hrefilled⟩
        rw [refill, hmove]
        show (moved.phpAllocateMoreHandleTableEntries granted).bind _ = _
        rw [hnone]
        show (if (!false && decide (moved.freeValue = phHandleValueInvalid)) = true then _
          else _) = _
        rw [decide_eq_false hmoved]
        rfl
      · obtain ⟨w, l, hl⟩ := hfresh moved.nextValue.toNat (v :: rest)
        have hne : table'.freeValue ≠ phHandleValueInvalid := by
          rw [hl] at hlists'
          exact hsome hlists'
        refine .inr ⟨table'.freeValue, _, freshValues moved.nextValue.toNat, table', ?_, rfl, hne,
          hlists', hperm.append_left _, fun hstrict => ?_, hrefilled.trans hmore ?_⟩
        · rw [refill, hmove]
          show (moved.phpAllocateMoreHandleTableEntries granted).bind _ = _
          rw [hexpand]
          rfl
        · rw [horder hstrict]
        · exact fun w hw => absurd hw List.not_mem_nil
    · have hfree := hindex.resolve_left hinvalid
      refine .inr ⟨index, v :: rest, [], moved, ?_, hfree, hinvalid, hlists, hperm, horder,
        hrefilled⟩
      rw [refill, hmove]
      show (if index ≠ phHandleValueInvalid then _ else _) = _
      rw [if_pos hinvalid]

/-- The table after its first free value was taken. -/
def popped (table : PhHandleTable) (v : ULong) : PhHandleTable :=
  { table with
    freeValue := (table.memory v.toNat).nextFreeValue
    count := table.count + 1 }

theorem FreeLists.popped {table : PhHandleTable} {v : ULong} {main alt : List ULong}
    (h : FreeLists table (v :: main) alt) : FreeLists (popped table v) main alt :=
  ⟨h.placed.congr rfl rfl rfl, h.freeValue_of_cons.2, h.alt_chain, (List.nodup_cons.mp h.nodup).2,
    fun w hw => h.below w (List.mem_cons_of_mem _ hw)⟩

theorem allocate_spec {table : PhHandleTable} {main alt : List ULong}
    (h : FreeLists table main alt) (granted : Nat → Bool) :
    (table.phpAllocateHandleTableEntry granted = some (none, table) ∧ main = [] ∧ alt = [] ∧
        Refused table granted) ∨
      ∃ v main' alt' block table',
        table.phpAllocateHandleTableEntry granted =
          some (some (v.toNat, v), popped table' v) ∧
        FreeLists table' (v :: main') alt' ∧
        (v :: main' ++ alt').Perm (block ++ (main ++ alt)) ∧
        (table.strictFifo = true →
          v :: main' ++ alt'.reverse = block ++ (main ++ alt.reverse)) ∧
        Refilled table table' (main ++ alt) block := by
  have htake : ∀ {v : ULong} {main' alt' : List ULong} {table' : PhHandleTable},
      findFreeValue granted 2 table table.freeValue = some (some v, table') →
      FreeLists table' (v :: main') alt' →
      table.phpAllocateHandleTableEntry granted = some (some (v.toNat, v), popped table' v) := by
    intro v main' alt' table' hfind hlists
    rw [phpAllocateHandleTableEntry, hfind]
    show (table'.phpLookupHandleTableEntry v).bind _ = _
    rw [lookup_of_placed hlists.placed (hlists.below v List.mem_cons_self)]
    rfl
  cases main with
  | cons v main =>
      obtain ⟨hfree, -⟩ := h.freeValue_of_cons
      have hne := h.placed.ne_invalid (h.below v List.mem_cons_self)
      refine .inr ⟨v, main, alt, [], table, htake ?_ h, h, .refl _, fun _ => rfl, Refilled.rfl'⟩
      rw [findFreeValue, if_pos (by rw [hfree]; exact hne), hfree]
  | nil =>
      have hfind : findFreeValue granted 2 table table.freeValue =
          (table.refill granted).bind fun result => result.1.elim (some (none, result.2))
            fun freeValue => findFreeValue granted 1 result.2 freeValue := by
        rw [findFreeValue, if_neg (fun hne => hne h.freeValue_of_nil)]
        refine congrArg _ (funext fun result => ?_)
        rcases result with ⟨_ | freeValue, table⟩ <;> rfl
      rcases refill_spec h granted with ⟨hrefill, halt, hrefused⟩ |
        ⟨v, main', block, table', hrefill, hv, hne, hlists, hperm, horder, hrefilled⟩
      · refine .inl ⟨?_, rfl, halt, hrefused⟩
        rw [phpAllocateHandleTableEntry, hfind, hrefill]
        rfl
      · have hfound : findFreeValue granted 2 table table.freeValue = some (some v, table') := by
          rw [hfind, hrefill]
          show findFreeValue granted 1 table' v = _
          rw [findFreeValue, if_pos hne]
        cases main' with
        | nil => exact absurd (hv.trans hlists.freeValue_of_nil) hne
        | cons w main' =>
            obtain rfl : v = w := hv.trans hlists.freeValue_of_cons.1
            refine .inr ⟨v, main', [], block, table', htake hfound hlists, hlists, ?_,
              fun hstrict => ?_, hrefilled⟩
            · rw [List.append_nil]
              exact hperm
            · rw [List.reverse_nil, List.append_nil]
              exact horder hstrict

/-! ## Giving a value back -/

/-- A value goes to the end of the queue under strict FIFO, and to the front of the main list
otherwise. -/
theorem free_spec {table : PhHandleTable} {main alt : List ULong} {v : ULong}
    (h : FreeLists table main alt) (hv : v.toNat < table.nextValue.toNat) (hnew : v ∉ main ++ alt) :
    FreeLists (table.phpFreeHandleTableEntry v v.toNat)
      (if table.strictFifo then main else v :: main)
      (if table.strictFifo then v :: alt else alt) := by
  have hne := h.placed.ne_invalid hv
  obtain ⟨hnotmain, hnotalt⟩ : v ∉ main ∧ v ∉ alt := by
    rw [List.mem_append, not_or] at hnew
    exact hnew
  have hkeep : ∀ (x : ULong) (l : List ULong) (head : Option ULong), v ∉ l →
      Links.Chain table.link head l →
      Links.Chain (table.setNextFreeValue v.toNat x).link head l := fun x l head hl hchain =>
    hchain.congr fun w hw => link_setNextFreeValue_of_ne fun heq => hl (heq ▸ hw)
  have hnodup : (v :: (main ++ alt)).Nodup := List.nodup_cons.mpr ⟨hnew, h.nodup⟩
  have hbelow : ∀ w ∈ v :: (main ++ alt), w.toNat < table.nextValue.toNat := by
    intro w hw
    rcases List.mem_cons.mp hw with rfl | hw
    · exact hv
    · exact h.below w hw
  have hpush : ∀ (x : ULong) (l : List ULong), v ∉ l → Links.Chain table.link (listed x) l →
      Links.Chain (table.setNextFreeValue v.toNat x).link (listed v) (v :: l) := by
    intro x l hl hchain
    rw [listed_of_ne hne]
    refine .cons ?_
    rw [link_setNextFreeValue_self]
    exact hkeep x l _ hl hchain
  have hstrict : PhHandleTable.strictFifo { table with count := table.count - 1 } =
      table.strictFifo := rfl
  rw [phpFreeHandleTableEntry]
  cases hflag : table.strictFifo with
  | true =>
      rw [hflag] at hstrict
      simp only [hstrict, if_true]
      refine ⟨h.placed.congr rfl rfl rfl, hkeep _ _ _ hnotmain h.main_chain,
        hpush _ _ hnotalt h.alt_chain, List.perm_middle.nodup_iff.mpr hnodup, fun w hw => ?_⟩
      exact hbelow w (List.perm_middle.mem_iff.mp hw)
  | false =>
      rw [hflag] at hstrict
      simp only [hstrict, Bool.false_eq_true, if_false]
      exact ⟨h.placed.congr rfl rfl rfl, hpush _ _ hnotmain h.main_chain,
        hkeep _ _ _ hnotalt h.alt_chain, hnodup, hbelow⟩

end SystemInformer.PhLib
