import SystemInformer.KphLib.DynData

/-!
# What a dynamic data lookup reads, and where it points

The lookup itself stays inside the buffer whatever the buffer holds: the entry table
was checked against the count before the first entry is looked at. What it answers is
checked at its first byte only. The last theorem says for which buffers that is
enough: those whose matching entry leaves room for the whole structure of its class.
-/

namespace SystemInformer.KphLib

open Bytes

/-! ## What the buffer says -/

def dynVersion (m : Mem) : Nat := field m 0 4
def dynDataCount (m : Mem) : Nat := field m dynCountAddr 4
def dynDataOffset (m : Mem) (i : Nat) : Nat := field m (dynDataAddr i + 12) 4

/-- Entry `i` is one that was asked for. -/
def DynMatches (m : Mem) (query : DynQuery) (i : Nat) : Prop :=
  field m (dynDataAddr i) 2 = query.class_.toNat ∧
  field m (dynDataAddr i + 2) 2 = query.machine.toNat ∧
  field m (dynDataAddr i + 4) 4 = query.timeDateStamp.toNat ∧
  field m (dynDataAddr i + 8) 4 = query.sizeOfImage.toNat

/-- Entry `i` is the first that was asked for. -/
def FirstMatch (m : Mem) (query : DynQuery) (i : Nat) : Prop :=
  i < dynDataCount m ∧ DynMatches m query i ∧ ∀ j, j < i → ¬ DynMatches m query j

/-- The version is right and the entry table fits the buffer. -/
def DynFits (m : Mem) (length : Nat) : Prop :=
  dynVersion m = dynConfigurationVersion ∧ dynDataAddr (dynDataCount m) ≤ length

/-- The number of fields in the structure of a class that has one. -/
def dynClassItems (class_ : UInt16) : Option Nat :=
  if class_ = dynClassNtoskrnl ∨ class_ = dynClassNtkrla57 then some dynKernelFields
  else if class_ = dynClassLxcore then some dynLxcoreFields
  else none

/-! ## One entry -/

variable {m : Mem} {query : DynQuery}

theorem dynDataMatches_val {i : Nat} :
    (dynDataMatches query i).val m = true ↔ DynMatches m query i := by
  unfold dynDataMatches DynMatches
  simp only [Reading.val_field_bind, Reading.val_ite, Reading.val_pure]
  split
  · next h => exact ⟨(nomatch ·), fun h' => absurd h'.1 h⟩
  · next h₁ =>
      split
      · next h => exact ⟨(nomatch ·), fun h' => absurd h'.2.1 h⟩
      · next h₂ =>
          split
          · next h => exact ⟨(nomatch ·), fun h' => absurd h'.2.2.1 h⟩
          · next h₃ =>
              rw [decide_eq_true_eq]
              exact ⟨fun h => ⟨not_not.mp h₁, not_not.mp h₂, not_not.mp h₃, h⟩,
                fun h => h.2.2.2⟩

theorem entry_within {length i k n : Nat} (hfit : DynFits m length)
    (hi : i < dynDataCount m) (hk : k + n ≤ sizeofDynData) :
    ReadLog.Within 0 length [(dynDataAddr i + k, n)] := by
  refine ReadLog.within_single (Nat.zero_le _) ?_
  have hle := hfit.2
  have hmul : sizeofDynData * (i + 1) ≤ sizeofDynData * dynDataCount m :=
    Nat.mul_le_mul_left _ hi
  unfold dynDataAddr at *
  rw [Nat.mul_succ] at hmul
  omega

theorem count_within {length : Nat} (hfit : DynFits m length) :
    ReadLog.Within 0 length [(dynCountAddr, 4)] := by
  refine ReadLog.within_single (Nat.zero_le _) (Nat.le_trans ?_ hfit.2)
  unfold dynDataAddr sizeofDynHeader dynCountAddr
  omega

theorem dynDataMatches_within {length i : Nat}
    (hfit : DynFits m length) (hi : i < dynDataCount m) :
    ReadLog.Within 0 length ((dynDataMatches query i).log m) := by
  unfold dynDataMatches
  simp only [Reading.log_field_bind, Reading.log_ite, Reading.log_pure]
  refine (entry_within (k := 0) hfit hi (by decide)).append ?_
  split
  · exact ReadLog.within_nil
  · refine (entry_within hfit hi (by decide)).append ?_
    split
    · exact ReadLog.within_nil
    · refine (entry_within hfit hi (by decide)).append ?_
      split
      · exact ReadLog.within_nil
      · exact (entry_within hfit hi (by decide)).append ReadLog.within_nil

theorem dynDataFound_within {length area i : Nat} {data fields : Bool}
    (hfit : DynFits m length) (hi : i < dynDataCount m) :
    ReadLog.Within 0 length ((dynDataFound area i data fields).log m) := by
  unfold dynDataFound
  simp only [Reading.log_field_bind, Reading.log_ite, Reading.log_pure]
  refine (entry_within hfit hi (by decide)).append ?_
  split
  · exact ReadLog.within_nil
  · split
    · exact (count_within hfit).append
        ((entry_within hfit hi (by decide)).append ReadLog.within_nil)
    · exact ReadLog.within_nil

def foundResult (m : Mem) (area i : Nat) (data fields : Bool) : DynDataAnswer :=
  if dynDataOffset m i ≥ area then .failed statusDyndataInvalidLength
  else ⟨statusSuccess, if data then some (dynDataAddr i) else none,
    if fields then some (dynDataAddr (dynDataCount m) + dynDataOffset m i) else none⟩

theorem dynDataFound_val {area i : Nat} {data fields : Bool} :
    (dynDataFound area i data fields).val m = foundResult m area i data fields := by
  unfold dynDataFound foundResult
  simp only [Reading.val_field_bind, Reading.val_ite, Reading.val_pure]
  cases fields <;> rfl

/-! ## The loop -/

theorem dynDataScan_within {length area n i : Nat}
    {data fields : Bool} (hfit : DynFits m length) (hn : i + n ≤ dynDataCount m) :
    ReadLog.Within 0 length ((dynDataScan query area data fields n i).log m) := by
  induction n generalizing i with
  | zero =>
      unfold dynDataScan
      simp only [Reading.log_field_bind, Reading.log_pure]
      exact (count_within hfit).append ReadLog.within_nil
  | succ n ih =>
      unfold dynDataScan
      simp only [Reading.log_bind, Reading.log_ite]
      refine (count_within hfit).append
        ((dynDataMatches_within hfit (by omega)).append ?_)
      split
      · exact dynDataFound_within hfit (by omega)
      · exact ih (by omega)

theorem dynDataScan_val (m : Mem) (query : DynQuery) (area n i : Nat) (data fields : Bool) :
    (∃ j, i ≤ j ∧ j < i + n ∧ DynMatches m query j ∧
      (∀ k, i ≤ k → k < j → ¬ DynMatches m query k) ∧
      (dynDataScan query area data fields n i).val m = foundResult m area j data fields) ∨
    ((∀ k, i ≤ k → k < i + n → ¬ DynMatches m query k) ∧
      (dynDataScan query area data fields n i).val m =
        .failed statusDyndataUnsupportedKernel) := by
  induction n generalizing i with
  | zero => exact Or.inr ⟨fun k h₁ h₂ => absurd h₂ (by omega), rfl⟩
  | succ n ih =>
      unfold dynDataScan
      simp only [Reading.val_bind, Reading.val_ite]
      split
      · next hfound =>
          have hmatch := dynDataMatches_val.mp hfound
          exact Or.inl ⟨i, Nat.le_refl i, by omega, hmatch, fun k h₁ h₂ => absurd h₂ (by omega),
            dynDataFound_val⟩
      · next hfound =>
          have hno : ¬ DynMatches m query i := fun h => hfound (dynDataMatches_val.mpr h)
          have hstep : ∀ k, i ≤ k → k ≠ i → i + 1 ≤ k := fun k h₁ h₂ => by omega
          rcases ih (i := i + 1) with ⟨j, h₁, h₂, hj, hbefore, hval⟩ | ⟨hnone, hval⟩
          · refine Or.inl ⟨j, by omega, by omega, hj, fun k hk hkj => ?_, hval⟩
            by_cases hki : k = i
            · rw [hki]
              exact hno
            · exact hbefore k (hstep k hk hki) hkj
          · refine Or.inr ⟨fun k hk hkn => ?_, hval⟩
            by_cases hki : k = i
            · rw [hki]
              exact hno
            · exact hnone k (hstep k hk hki) (by omega)

/-! ## The lookup -/

def dynArea (m : Mem) (length : Nat) : Nat := length - dynDataAddr (dynDataCount m)

/-- A lookup fails without reading past the header, or it is the loop over a table
that fits. -/
theorem kphDynDataLookup_cases (m : Mem) (length : UInt32) (query : DynQuery)
    (data fields : Bool) :
    (¬ DynFits m length.toNat ∧
      (∃ status, ntSuccess status = false ∧
        (kphDynDataLookup length query data fields).val m = .failed status) ∧
      ReadLog.Within 0 length.toNat ((kphDynDataLookup length query data fields).log m)) ∨
    (DynFits m length.toNat ∧
      (kphDynDataLookup length query data fields).val m =
        (dynDataScan query (dynArea m length.toNat) data fields (dynDataCount m) 0).val m ∧
      (kphDynDataLookup length query data fields).log m = [(0, 4)] ++ ([(dynCountAddr, 4)] ++
        (dynDataScan query (dynArea m length.toNat) data fields (dynDataCount m) 0).log m)) := by
  have hlt : length.toNat < 2 ^ 32 := length.toNat_lt
  unfold kphDynDataLookup
  by_cases hlen : length.toNat ≥ sizeofDynHeader
  · have hsub : rtlULongSub length.toNat sizeofDynHeader =
        .ok (length.toNat - sizeofDynHeader) := if_pos hlen
    have hversion : ReadLog.Within 0 length.toNat [(0, 4)] :=
      ReadLog.within_single (Nat.zero_le _) (Nat.le_trans (by decide) hlen)
    have hcount : ReadLog.Within 0 length.toNat [(dynCountAddr, 4)] :=
      ReadLog.within_single (Nat.zero_le _) (Nat.le_trans (by decide) hlen)
    simp only [hsub, Reading.val_field_bind, Reading.log_field_bind, Reading.val_ite,
      Reading.log_ite, Reading.val_pure, Reading.log_pure]
    by_cases hv : field m 0 4 ≠ dynConfigurationVersion
    · refine Or.inl ⟨fun h => hv h.1, ⟨_, by decide, if_pos hv⟩, ?_⟩
      rw [if_pos hv]
      exact hversion.append ReadLog.within_nil
    · rw [if_neg hv, if_neg hv]
      by_cases hmul : sizeofDynData * field m dynCountAddr 4 ≤ ulongMax
      · have hmult : rtlULongMult sizeofDynData (field m dynCountAddr 4) =
            .ok (sizeofDynData * field m dynCountAddr 4) := if_pos hmul
        simp only [hmult]
        by_cases hfit : length.toNat - sizeofDynHeader ≥ sizeofDynData * field m dynCountAddr 4
        · have hsub' : rtlULongSub (length.toNat - sizeofDynHeader)
              (sizeofDynData * field m dynCountAddr 4) =
              .ok (dynArea m length.toNat) := by
            unfold rtlULongSub
            rw [if_pos hfit, dynArea, dynDataAddr, Nat.sub_sub]
            rfl
          simp only [hsub']
          refine Or.inr ⟨⟨not_not.mp hv, ?_⟩, rfl, rfl⟩
          unfold dynDataAddr dynDataCount
          omega
        · have hsub' : rtlULongSub (length.toNat - sizeofDynHeader)
              (sizeofDynData * field m dynCountAddr 4) = .error statusIntegerOverflow :=
            if_neg hfit
          simp only [hsub', Reading.val_pure, Reading.log_pure]
          refine Or.inl ⟨fun h => hfit ?_, ⟨_, by decide, rfl⟩,
            hversion.append (hcount.append ReadLog.within_nil)⟩
          have := h.2
          unfold dynDataAddr dynDataCount at this
          omega
      · have hmult : rtlULongMult sizeofDynData (field m dynCountAddr 4) =
            .error statusIntegerOverflow := if_neg hmul
        simp only [hmult, Reading.val_pure, Reading.log_pure]
        refine Or.inl ⟨fun h => hmul ?_, ⟨_, by decide, rfl⟩,
          hversion.append (hcount.append ReadLog.within_nil)⟩
        have := h.2
        unfold dynDataAddr dynDataCount at this
        unfold ulongMax
        omega
  · have hsub : rtlULongSub length.toNat sizeofDynHeader = .error statusIntegerOverflow :=
      if_neg hlen
    simp only [hsub, Reading.val_pure, Reading.log_pure]
    refine Or.inl ⟨fun h => hlen (Nat.le_trans ?_ h.2), ⟨_, by decide, rfl⟩, ReadLog.within_nil⟩
    exact Nat.le_add_right _ _

theorem kphDynDataLookup_within {length : UInt32}
    {data fields : Bool} :
    ReadLog.Within 0 length.toNat ((kphDynDataLookup length query data fields).log m) := by
  rcases kphDynDataLookup_cases m length query data fields with ⟨-, -, hwithin⟩ | ⟨hfit, -, hlog⟩
  · exact hwithin
  · rw [hlog]
    have hversion : ReadLog.Within 0 length.toNat [(0, 4)] := by
      refine ReadLog.within_single (Nat.zero_le _) (Nat.le_trans ?_ hfit.2)
      unfold dynDataAddr sizeofDynHeader
      omega
    exact hversion.append ((count_within hfit).append (dynDataScan_within hfit (by omega)))

/-- What is answered for a found entry whose offset is in the area. -/
def foundAnswer (m : Mem) (i : Nat) (data fields : Bool) : DynDataAnswer :=
  ⟨statusSuccess, if data then some (dynDataAddr i) else none,
    if fields then some (dynDataAddr (dynDataCount m) + dynDataOffset m i) else none⟩

theorem kphDynDataLookup_answers (m : Mem) (length : UInt32) (query : DynQuery)
    (data fields : Bool) :
    (∃ i, DynFits m length.toNat ∧ FirstMatch m query i ∧
      dynDataOffset m i < dynArea m length.toNat ∧
      (kphDynDataLookup length query data fields).val m = foundAnswer m i data fields) ∨
    ∃ status, ntSuccess status = false ∧
      (kphDynDataLookup length query data fields).val m = .failed status := by
  rcases kphDynDataLookup_cases m length query data fields with ⟨-, hfail, -⟩ | ⟨hfit, hval, -⟩
  · exact Or.inr hfail
  · rcases dynDataScan_val m query (dynArea m length.toNat) (dynDataCount m) 0 data fields with
      ⟨j, -, hj, hmatch, hbefore, hscan⟩ | ⟨-, hscan⟩
    · rw [hscan, foundResult] at hval
      split at hval
      · exact Or.inr ⟨_, by decide, hval⟩
      · next hoff =>
          exact Or.inl ⟨j, hfit, ⟨by omega, hmatch, fun k hk => hbefore k (Nat.zero_le k) hk⟩,
            Nat.not_le.mp hoff, hval⟩
    · exact Or.inr ⟨_, by decide, hval.trans hscan⟩

theorem FirstMatch.unique {i j : Nat} (hi : FirstMatch m query i)
    (hj : FirstMatch m query j) : i = j := by
  rcases Nat.lt_trichotomy i j with h | h | h
  · exact absurd hi.2.1 (hj.2.2 i h)
  · exact h
  · exact absurd hj.2.1 (hi.2.2 j h)

theorem kphDynDataLookup_found {length : UInt32}
    (data fields : Bool) {i : Nat} (hfit : DynFits m length.toNat) (hi : FirstMatch m query i) :
    (kphDynDataLookup length query data fields).val m =
      foundResult m (dynArea m length.toNat) i data fields := by
  rcases kphDynDataLookup_cases m length query data fields with ⟨hno, -, -⟩ | ⟨-, hval, -⟩
  · exact absurd hfit hno
  · rcases dynDataScan_val m query (dynArea m length.toNat) (dynDataCount m) 0 data fields with
      ⟨j, -, hj, hmatch, hbefore, hscan⟩ | ⟨hnone, -⟩
    · have hj' : FirstMatch m query j := ⟨by omega, hmatch, fun k hk => hbefore k (Nat.zero_le k) hk⟩
      rw [hval, hscan, hi.unique hj']
    · exact absurd hi.2.1 (hnone i (Nat.zero_le i) (by have := hi.1; omega))

/-! ## What the driver reads of it -/

theorem loadDynItems_log {base n i : Nat} :
    (loadDynItems base n i).log m = (List.range' i n).map fun k => (base + 2 * k, 2) := by
  induction n generalizing i with
  | zero => rfl
  | succ n ih =>
      rw [List.range'_succ, List.map_cons, ← ih]
      simp only [loadDynItems, Reading.log_bind, Reading.log_pure, List.append_nil]
      rfl

theorem loadDynItems_within {base n length : Nat} (hn : 0 < n) :
    ReadLog.Within 0 length ((loadDynItems base n 0).log m) ↔ base + 2 * n ≤ length := by
  rw [loadDynItems_log]
  constructor
  · intro h
    have hlast := (h (base + 2 * (n - 1), 2) (List.mem_map.mpr
      ⟨n - 1, List.mem_range'_1.mpr ⟨Nat.zero_le _, by omega⟩, rfl⟩)).2
    simp only at hlast
    omega
  · intro h r hr
    obtain ⟨k, hk, rfl⟩ := List.mem_map.mp hr
    have hk' := (List.mem_range'_1.mp hk).2
    exact ⟨Nat.zero_le _, by simp only; omega⟩

/-- What a lookup of a buffer of `length` bytes promises: it reads inside the buffer; it
answers the first entry that was asked for; and the structure of the entry's class,
with all that `KphpInitializeDynData` loads from it, is inside the buffer. -/
structure DynLookupSafe (m : Mem) (length : UInt32) (query : DynQuery) (data fields : Bool) :
    Prop where
  reads : ReadLog.Within 0 length.toNat ((kphDynDataLookup length query data fields).log m)
  first : ntSuccess ((kphDynDataLookup length query data fields).val m).status = true →
    ∃ i, FirstMatch m query i ∧
      ((kphDynDataLookup length query data fields).val m).data =
        (if data then some (dynDataAddr i) else none) ∧
      ((kphDynDataLookup length query data fields).val m).fields =
        (if fields then some (dynDataAddr (dynDataCount m) + dynDataOffset m i) else none)
  inside : ∀ base, ((kphDynDataLookup length query data fields).val m).fields = some base →
    ∀ n, dynClassItems query.class_ = some n → base + 2 * n ≤ length.toNat ∧
      ReadLog.Within 0 length.toNat ((loadDynItems base n 0).log m)

theorem dynClassItems_pos {class_ : UInt16} {n : Nat} (h : dynClassItems class_ = some n) :
    0 < n := by
  unfold dynClassItems at h
  split at h
  · injection h with h
    rw [← h]
    decide
  · split at h
    · injection h with h
      rw [← h]
      decide
    · cases h

/-- The buffers for which the check of the first byte is enough. -/
theorem dynLookupSafe_iff (m : Mem) (length : UInt32) (query : DynQuery) (data fields : Bool) :
    DynLookupSafe m length query data fields ↔
      (fields = true → DynFits m length.toNat → ∀ i, FirstMatch m query i →
        dynDataOffset m i < dynArea m length.toNat →
        ∀ n, dynClassItems query.class_ = some n →
          dynDataOffset m i + 2 * n ≤ dynArea m length.toNat) := by
  constructor
  · intro h hfields hfit i hi hoff n hn
    have hval := kphDynDataLookup_found data fields hfit hi
    rw [foundResult, if_neg (Nat.not_le.mpr hoff), if_pos hfields] at hval
    have hinside := (h.inside _ (congrArg DynDataAnswer.fields hval) n hn).1
    unfold dynArea
    omega
  · intro h
    refine ⟨kphDynDataLookup_within, ?_, ?_⟩
    · intro hs
      rcases kphDynDataLookup_answers m length query data fields with ⟨i, -, hi, -, hval⟩ | ⟨status, hfail, hval⟩
      · exact ⟨i, hi, congrArg DynDataAnswer.data hval, congrArg DynDataAnswer.fields hval⟩
      · rw [hval, DynDataAnswer.failed, hfail] at hs
        cases hs
    · intro base hbase n hn
      rcases kphDynDataLookup_answers m length query data fields with ⟨i, hfit, hi, hoff, hval⟩ | ⟨status, -, hval⟩
      · rw [hval, foundAnswer] at hbase
        cases fields with
        | false => cases hbase
        | true =>
            injection hbase with hbase
            have hroom := h rfl hfit i hi hoff n hn
            have hle := hfit.2
            unfold dynArea at hroom hoff
            have hin : base + 2 * n ≤ length.toNat := by omega
            exact ⟨hin, (loadDynItems_within (dynClassItems_pos hn)).mpr hin⟩
      · rw [hval, DynDataAnswer.failed] at hbase
        cases hbase

/-- One entry for the kernel, with room for a single byte of its fields. -/
def shortConfig : Mem := fun a => if a = 0 then 15 else if a = dynCountAddr then 1 else 0

theorem dynLookup_short_unsafe : ¬ DynLookupSafe shortConfig 564 ⟨0, 0, 0, 0⟩ false true := by
  intro h
  have hval : ((kphDynDataLookup 564 ⟨0, 0, 0, 0⟩ false true).val shortConfig).fields =
      some 563 := by decide +kernel
  have hinside := (h.inside 563 hval dynKernelFields rfl).1
  exact absurd hinside (by decide)

end SystemInformer.KphLib
