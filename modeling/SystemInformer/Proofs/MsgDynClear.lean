import SystemInformer.Proofs.MsgDynRoundTrip

/-!
# Clearing the last entry

`KphMsgDynClearLast` returns at once when there are entries, where it should return when there are
none. After an add that succeeded there is one, so the call stores nothing and the count stays what
the add has made it. On a message without entries the count becomes 255, and the size and an entry
far behind the table are changed with it.
-/

namespace SystemInformer.KphLib

open Bytes

/-- The size, the count and the whole table of entries are those of the other message. -/
structure SameTable (m m' : Mem) : Prop where
  size : headerSize m' = headerSize m
  count : dynCount m' = dynCount m
  entries : load m' (entryAddr 0) (dynEntriesMax * sizeofDynEntry) =
    load m (entryAddr 0) (dynEntriesMax * sizeofDynEntry)

/-- The message after an add, and then `KphMsgDynClearLast`. -/
def addAndClear (m : Mem) (f : UInt32) (d : DynData) : Mem :=
  let added := applyLog m (kphMsgDynAdd m f d).2
  applyLog added (kphMsgDynClearLast added)

/-- What is expected of `KphMsgDynClearLast`. -/
structure ClearLastUndoes (m : Mem) : Prop where
  undoes : ∀ f d, (kphMsgDynAdd m f d).1 = statusSuccess → SameTable m (addAndClear m f d)
  empty : dynCount m = 0 → applyLog m (kphMsgDynClearLast m) = m

theorem kphMsgDynClearLast_of_entries {m : Mem} (h : dynCount m ≠ 0) :
    kphMsgDynClearLast m = [] := by
  rw [kphMsgDynClearLast, if_pos h]

theorem dynCount_clearLast {m : Mem} (h : dynCount m = 0) :
    dynCount (applyLog m (kphMsgDynClearLast m)) = 255 := by
  rw [kphMsgDynClearLast, if_neg (not_not.mpr h), h]
  simp only [applyLog, dynCount]
  rw [Store.field_apply_disjoint (by simp [entryAddr]), Store.field_apply_disjoint
    (by simp [Store.field]), Store.field_apply_same]
  rfl

theorem dynCount_addAndClear {m : Mem} {f : UInt32} {d : DynData}
    (h : (kphMsgDynAdd m f d).1 = statusSuccess) :
    dynCount (addAndClear m f d) = dynCount m + 1 := by
  have haccepts := add_success_iff.mp h
  obtain ⟨hcount, -⟩ := addLog_fields haccepts
  have hclear : kphMsgDynClearLast (applyLog m (kphMsgDynAdd m f d).2) = [] := by
    refine kphMsgDynClearLast_of_entries ?_
    rw [add_of_accepts haccepts, hcount]
    exact Nat.succ_ne_zero _
  rw [addAndClear, hclear, add_of_accepts haccepts]
  exact hcount

/-- No add is undone, and no message without entries is left alone. -/
theorem kphMsgDynClearLast_never_undoes (m : Mem) :
    (∀ f d, (kphMsgDynAdd m f d).1 = statusSuccess → ¬ SameTable m (addAndClear m f d)) ∧
      (dynCount m = 0 → applyLog m (kphMsgDynClearLast m) ≠ m) := by
  constructor
  · intro f d h hsame
    have hcount := hsame.count
    rw [dynCount_addAndClear h] at hcount
    exact Nat.succ_ne_self _ hcount
  · intro h hkept
    have hcount := dynCount_clearLast h
    rw [hkept, h] at hcount
    exact absurd hcount (by decide)

theorem kphMsgDynClearLast_keeps_entry : ¬ ClearLastUndoes blankMessage := by
  intro h
  have hadd : (kphMsgDynAdd blankMessage 1 (.unicodeString shortString)).1 = statusSuccess :=
    add_success_iff.mpr (by decide +kernel)
  have hcount := (h.undoes 1 (.unicodeString shortString) hadd).count
  rw [dynCount_addAndClear hadd] at hcount
  omega

end SystemInformer.KphLib
