import SystemInformer.Lib.ListOrder
import SystemInformer.PhLib.MappedExports
import SystemInformer.Proofs.MappedImage

/-!
# Where the lookups of exports agree

The search for a name halves the range of the indices that are left, and that is right as long as
it stays in the table. There are two ways out of it. A table of names whose RVA is in no section is
null, and the search does not look. And `low + high` is a `LONG`, so a range high up in a table of
more than `2 ^ 30` names makes a negative index. `SearchVisits` tells the ranges that the search for
a string comes to when the sums are right; the search is safe for every string exactly when they
all are (`lookupLoop_ne_none_iff`), and then it finds the names of a sorted table.

The ordinals always lead back to the index, because everything is computed modulo `2 ^ 16` and there
are no more functions than that. What may go wrong behind them is the forwarder: whether an RVA is
in the directory is asked of the directory of the headers, with an end that is a `ULONG`, and an RVA
that is in the directory and in no section ends the lookup.
-/

namespace SystemInformer.PhLib

open Bytes ListOrder

variable {m : Mem} {exports : PhMappedImageExports} {string : PcStr} {low high : Nat}

/-! ## Strings -/

def PcStr.key (string : PcStr) : List Nat := string.chars.map UInt8.toNat

theorem PcStr.key_injective {s t : PcStr} (h : s.key = t.key) : s = t := by
  obtain ⟨s, hs⟩ := s
  obtain ⟨t, ht⟩ := t
  have hst : s = t := List.map_injective_iff.mpr (fun _ _ => UInt8.toNat_inj.mp) h
  subst hst
  rfl

/-- The characters at an address, with the terminator behind them. -/
def StandsAt (m : Mem) : List UInt8 → Nat → Prop
  | [], address => m address = 0
  | c :: chars, address => m address = c ∧ StandsAt m chars (address + 1)

theorem strcmp_eq {s t : List UInt8} {address : Nat} (hs : 0 ∉ s) (ht : 0 ∉ t)
    (h : StandsAt m t address) :
    strcmp m s address = order (s.map UInt8.toNat) (t.map UInt8.toNat) := by
  induction s generalizing t address with
  | nil =>
      cases t with
      | nil =>
          have hnull : m address = 0 := h
          rw [strcmp, if_pos hnull]
          exact (order_self _).symm
      | cons d t =>
          have hd : m address ≠ 0 := h.1 ▸ fun hd => ht (hd ▸ List.mem_cons_self)
          rw [strcmp, if_neg hd]
          exact (order_nil_cons _ _).symm
  | cons c s ih =>
      obtain ⟨hc, hs⟩ := not_or.mp (mt List.mem_cons.mpr hs)
      cases t with
      | nil =>
          have hnull : m address = 0 := h
          rw [strcmp, hnull, if_neg (Ne.symm hc), if_neg (UInt8.not_lt_zero)]
          exact (order_cons_nil _ _).symm
      | cons d t =>
          obtain ⟨hd, htail⟩ := h
          have ht := (not_or.mp (mt List.mem_cons.mpr ht)).2
          rw [List.map_cons, List.map_cons, order_cons_cons, strcmp, hd]
          rcases lt_trichotomy c.toNat d.toNat with hlt | heq | hgt
          · rw [if_neg fun h => absurd (congrArg UInt8.toNat h) hlt.ne,
              if_pos (UInt8.lt_iff_toNat_lt.mpr hlt), order_of_lt hlt]
            rfl
          · rw [if_pos (UInt8.toNat_inj.mp heq), heq, order_self]
            exact ih hs ht htail
          · rw [if_neg fun h => absurd (congrArg UInt8.toNat h) hgt.ne',
              if_neg fun h => absurd (UInt8.lt_iff_toNat_lt.mp h) hgt.not_gt, order_of_gt hgt]
            rfl

theorem strcmp_key {s t : PcStr} {address : Nat} (h : StandsAt m t.chars address) :
    strcmp m s.chars address = order s.key t.key :=
  strcmp_eq s.zero_notMem t.zero_notMem h

theorem StandsAt.unique {s t : PcStr} {address : Nat} (hs : StandsAt m s.chars address)
    (ht : StandsAt m t.chars address) : s = t := by
  have hself := strcmp_key (s := s) hs
  rw [strcmp_key ht, order_self, order, cmp_eq_eq_iff] at hself
  exact PcStr.key_injective hself

/-! ## The search -/

/-- The ranges that the search comes to from a range on. -/
inductive SearchVisits (m : Mem) (exports : PhMappedImageExports) (string : PcStr) :
    Nat → Nat → Nat → Nat → Prop
  | here (low high : Nat) : SearchVisits m exports string low high low high
  | left {low high low' high' : Nat} (known : exports.name m ((low + high) / 2) ≠ 0)
      (less : strcmp m string.chars (exports.name m ((low + high) / 2)) = .lt)
      (rest : low < (low + high) / 2)
      (visits : SearchVisits m exports string low ((low + high) / 2 - 1) low' high') :
      SearchVisits m exports string low high low' high'
  | right {low high low' high' : Nat} (known : exports.name m ((low + high) / 2) ≠ 0)
      (greater : strcmp m string.chars (exports.name m ((low + high) / 2)) = .gt)
      (rest : (low + high) / 2 < high)
      (visits : SearchVisits m exports string ((low + high) / 2 + 1) high low' high') :
      SearchVisits m exports string low high low' high'

theorem lookupLoop_ne_none_iff (htable : exports.namePointerTable ≠ 0) (hle : low ≤ high)
    (hhigh : high < exports.numberOfNames m) :
    lookupLoop m exports string low high ≠ none ↔
      ∀ low' high', SearchVisits m exports string low high low' high' → low' + high' < 2 ^ 31 := by
  fun_induction lookupLoop m exports string low high with
  | case1 low high hsum =>
      exact iff_of_false (fun h => h rfl) fun h => absurd (h _ _ (.here low high)) (by omega)
  | case2 low high hsum i houtside => exact absurd houtside (not_or.mpr ⟨htable, by omega⟩)
  | case3 low high hsum i hinside hname =>
      refine iff_of_true (Option.some_ne_none _) fun low' high' h => ?_
      cases h with
      | here => omega
      | left hknown => exact absurd hname hknown
      | right hknown => exact absurd hname hknown
  | case4 low high hsum i hinside hname hcmp =>
      refine iff_of_true (Option.some_ne_none _) fun low' high' h => ?_
      cases h with
      | here => omega
      | left _ hless => exact absurd (hcmp.symm.trans hless) (by decide)
      | right _ hgreater => exact absurd (hcmp.symm.trans hgreater) (by decide)
  | case5 low high hsum i hinside hname hcmp hrest ih =>
      rw [ih (by omega) (by omega)]
      constructor
      · intro h low' high' hvisits
        cases hvisits with
        | here => omega
        | left _ _ _ hvisits => exact h _ _ hvisits
        | right _ hgreater => exact absurd (hcmp.symm.trans hgreater) (by decide)
      · exact fun h low' high' hvisits => h _ _ (.left hname hcmp hrest hvisits)
  | case6 low high hsum i hinside hname hcmp hrest =>
      refine iff_of_true (Option.some_ne_none _) fun low' high' h => ?_
      cases h with
      | here => omega
      | left _ _ hlt => exact absurd hlt hrest
      | right _ hgreater => exact absurd (hcmp.symm.trans hgreater) (by decide)
  | case7 low high hsum i hinside hname hcmp hrest ih =>
      rw [ih (by omega) hhigh]
      constructor
      · intro h low' high' hvisits
        cases hvisits with
        | here => omega
        | left _ hless => exact absurd (hcmp.symm.trans hless) (by decide)
        | right _ _ _ hvisits => exact h _ _ hvisits
      · exact fun h low' high' hvisits => h _ _ (.right hname hcmp hrest hvisits)
  | case8 low high hsum i hinside hname hcmp hrest =>
      refine iff_of_true (Option.some_ne_none _) fun low' high' h => ?_
      cases h with
      | here => omega
      | left _ hless => exact absurd (hcmp.symm.trans hless) (by decide)
      | right _ _ hlt => exact absurd hlt hrest

structure SortedNames (m : Mem) (exports : PhMappedImageExports) (names : Nat → PcStr) :
    Prop where
  known : ∀ i < exports.numberOfNames m, exports.name m i ≠ 0
  stands : ∀ i < exports.numberOfNames m, StandsAt m (names i).chars (exports.name m i)
  lt : ∀ i j, i < j → j < exports.numberOfNames m → (names i).key < (names j).key

section

variable {names : Nat → PcStr} {i mid : Nat}

theorem SortedNames.lt_of_key_lt (h : SortedNames m exports names)
    (hi : i < exports.numberOfNames m) (hlt : (names i).key < (names mid).key) : i < mid := by
  by_contra hge
  rcases (Nat.not_lt.mp hge).eq_or_lt with rfl | hgt
  · exact lt_irrefl _ hlt
  · exact lt_asymm hlt (h.lt mid i hgt hi)

theorem SortedNames.lt_of_less (h : SortedNames m exports names)
    (hmid : mid < exports.numberOfNames m) (hi : i < exports.numberOfNames m)
    (hless : strcmp m string.chars (exports.name m mid) = .lt) (hname : names i = string) :
    i < mid := by
  rw [strcmp_key (h.stands mid hmid), order, cmp_eq_lt_iff, ← hname] at hless
  exact h.lt_of_key_lt hi hless

theorem SortedNames.gt_of_greater (h : SortedNames m exports names)
    (hmid : mid < exports.numberOfNames m)
    (hgreater : strcmp m string.chars (exports.name m mid) = .gt) (hname : names i = string) :
    mid < i := by
  rw [strcmp_key (h.stands mid hmid), order, cmp_eq_gt_iff, ← hname] at hgreater
  exact h.lt_of_key_lt hmid hgreater

theorem SortedNames.eq_of_same (h : SortedNames m exports names)
    (hmid : mid < exports.numberOfNames m)
    (hsame : strcmp m string.chars (exports.name m mid) = .eq) : names mid = string := by
  rw [strcmp_key (h.stands mid hmid), order, cmp_eq_eq_iff] at hsame
  exact (PcStr.key_injective hsame).symm

theorem SortedNames.unique (h : SortedNames m exports names)
    (hmid : mid < exports.numberOfNames m) (hi : i < exports.numberOfNames m)
    (heq : names i = names mid) : i = mid := by
  rcases lt_trichotomy i mid with hlt | heq' | hgt
  · exact absurd (heq ▸ h.lt i mid hlt hmid) (lt_irrefl _)
  · exact heq'
  · exact absurd (heq ▸ h.lt mid i hgt hi) (lt_irrefl _)

end

theorem lookupLoop_sorted {names : Nat → PcStr} (hnames : SortedNames m exports names)
    (hle : low ≤ high) (hhigh : high < exports.numberOfNames m) {result : Option Nat}
    (h : lookupLoop m exports string low high = some result) (i : Nat) :
    result = some i ↔ low ≤ i ∧ i ≤ high ∧ names i = string := by
  fun_induction lookupLoop m exports string low high with
  | case1 => cases h
  | case2 => cases h
  | case3 low high hsum mid hinside hname =>
      exact absurd hname (hnames.known _ (Nat.not_le.mp (not_or.mp hinside).2))
  | case4 low high hsum mid hinside hname hcmp =>
      have hmid : mid < exports.numberOfNames m := Nat.not_le.mp (not_or.mp hinside).2
      have hfound := hnames.eq_of_same hmid hcmp
      obtain rfl := Option.some.inj h
      rw [Option.some.injEq]
      constructor
      · rintro rfl
        exact ⟨by omega, by omega, hfound⟩
      · rintro ⟨-, hi, hname⟩
        exact (hnames.unique hmid (by omega) (hname.trans hfound.symm)).symm
  | case5 low high hsum mid hinside hname hcmp hrest ih =>
      have hmid : mid < exports.numberOfNames m := Nat.not_le.mp (not_or.mp hinside).2
      rw [ih (by omega) (by omega) h]
      constructor
      · exact fun ⟨hlow, hi, hname⟩ => ⟨hlow, by omega, hname⟩
      · rintro ⟨hlow, hi, hname⟩
        have hlt := hnames.lt_of_less hmid (by omega) hcmp hname
        exact ⟨hlow, by omega, hname⟩
  | case6 low high hsum mid hinside hname hcmp hrest =>
      have hmid : mid < exports.numberOfNames m := Nat.not_le.mp (not_or.mp hinside).2
      obtain rfl := Option.some.inj h
      refine iff_of_false (fun h => nomatch h) ?_
      rintro ⟨hlow, hi, hname⟩
      have hlt := hnames.lt_of_less hmid (by omega) hcmp hname
      omega
  | case7 low high hsum mid hinside hname hcmp hrest ih =>
      have hmid : mid < exports.numberOfNames m := Nat.not_le.mp (not_or.mp hinside).2
      rw [ih (by omega) hhigh h]
      constructor
      · exact fun ⟨hlow, hi, hname⟩ => ⟨by omega, hi, hname⟩
      · rintro ⟨hlow, hi, hname⟩
        have hlt := hnames.gt_of_greater hmid hcmp hname
        exact ⟨by omega, hi, hname⟩
  | case8 low high hsum mid hinside hname hcmp hrest =>
      have hmid : mid < exports.numberOfNames m := Nat.not_le.mp (not_or.mp hinside).2
      obtain rfl := Option.some.inj h
      refine iff_of_false (fun h => nomatch h) ?_
      rintro ⟨hlow, hi, hname⟩
      have hlt := hnames.gt_of_greater hmid hcmp hname
      omega

theorem phLookupMappedImageExportName_ne_none_iff (m : Mem) (exports : PhMappedImageExports)
    (string : PcStr) :
    phLookupMappedImageExportName m exports string ≠ none ↔
      (exports.numberOfNames m ≠ 0 → exports.namePointerTable ≠ 0 ∧
        ∀ low high, SearchVisits m exports string 0 (exports.numberOfNames m - 1) low high →
          low + high < 2 ^ 31) := by
  rw [phLookupMappedImageExportName]
  split
  · next hzero => exact iff_of_true (Option.some_ne_none _) fun h => absurd hzero h
  · next hzero =>
      split
      · next hlarge =>
          refine iff_of_false (fun h => h rfl) fun h => ?_
          have := (h hzero).2 _ _ (.here _ _)
          omega
      · next hsmall =>
          by_cases htable : exports.namePointerTable = 0
          · refine iff_of_false (fun h => h ?_) fun h => (h hzero).1 htable
            rw [lookupLoop, if_neg (by omega)]
            exact if_pos (.inl htable)
          · rw [lookupLoop_ne_none_iff htable (Nat.zero_le _) (by omega)]
            exact ⟨fun h _ => ⟨htable, h⟩, fun h => (h hzero).2⟩

theorem phLookupMappedImageExportName_sorted {names : Nat → PcStr}
    (hnames : SortedNames m exports names)
    (h : phLookupMappedImageExportName m exports string ≠ none) (i : Nat) :
    phLookupMappedImageExportName m exports string = some (some i) ↔
      i < exports.numberOfNames m ∧ names i = string := by
  obtain ⟨result, hresult⟩ := Option.ne_none_iff_exists'.mp h
  rw [hresult, Option.some.injEq]
  rw [phLookupMappedImageExportName] at hresult
  split at hresult
  · next hzero =>
      obtain rfl := Option.some.inj hresult
      exact iff_of_false (fun h => nomatch h) fun h => by omega
  · next hzero =>
      split at hresult
      · cases hresult
      · rw [lookupLoop_sorted hnames (Nat.zero_le _) (by omega) hresult i]
        constructor
        · exact fun ⟨_, hi, hname⟩ => ⟨by omega, hname⟩
        · exact fun ⟨hi, hname⟩ => ⟨Nat.zero_le i, by omega, hname⟩

/-! ## Entries and functions -/

/-- The range of the directory that the tables were found in. -/
def InDirectory (directory : ImageDataDirectory) (rva : Nat) : Prop :=
  directory.virtualAddress ≤ rva ∧ rva < directory.virtualAddress + directory.size

def headerDirectory (m : Mem) (exports : PhMappedImageExports) : ImageDataDirectory :=
  ⟨field m exports.dataDirectory 4, field m (exports.dataDirectory + 4) 4⟩

instance (directory : ImageDataDirectory) (rva : Nat) : Decidable (InDirectory directory rva) :=
  inferInstanceAs (Decidable (_ ∧ _))

/-- A call that leads to an RVA, with a forwarded name exactly if it is in the directory. -/
def Resolves (directory : ImageDataDirectory) (rva : Nat)
    (call : Option (Except NtStatus PhMappedImageExportFunction)) : Prop :=
  ∃ function, call = some (.ok function) ∧ function.function = rva ∧
    (function.forwardedName ≠ 0 ↔ InDirectory directory rva)

theorem resolves_iff (directory : ImageDataDirectory) (rva : Nat) :
    Resolves directory rva (some (exportFunction m exports rva)) ↔
      (isForwarder m exports rva ↔ InDirectory directory rva) ∧
        (isForwarder m exports rva → exports.rvaToVa m rva ≠ 0) := by
  rw [exportFunction]
  split
  · next hforwarder =>
      simp only [hforwarder, true_iff, forall_const]
      split
      · next hnull => exact iff_of_false (fun ⟨_, h, _⟩ => nomatch h) fun h => h.2 hnull
      · next hva =>
          constructor
          · rintro ⟨function, hcall, -, hname⟩
            obtain rfl := Except.ok.inj (Option.some.inj hcall)
            exact ⟨hname.mp hva, hva⟩
          · exact fun h => ⟨_, rfl, rfl, iff_of_true hva h.1⟩
  · next hforwarder =>
      simp only [hforwarder, false_iff, false_imp_iff, and_true]
      constructor
      · rintro ⟨function, hcall, -, hname⟩
        obtain rfl := Except.ok.inj (Option.some.inj hcall)
        exact fun hin => hname.mpr hin rfl
      · exact fun h => ⟨_, rfl, rfl, iff_of_false (fun hne => hne rfl) h⟩

/-- The name of a function, if it has one, is in a section. -/
def NameKnown (m : Mem) (exports : PhMappedImageExports) (index : Nat) : Prop :=
  ∀ nameIndex, exportNameIndex m exports index = some nameIndex →
    exports.namePointerTable ≠ 0 → exports.name m nameIndex ≠ 0

theorem phGetMappedImageExportEntry_ok_iff {index : Nat}
    (h : index < exports.numberOfFunctions m) :
    (∃ entry, phGetMappedImageExportEntry m exports index = .ok entry) ↔
      NameKnown m exports index := by
  rw [phGetMappedImageExportEntry, if_neg (Nat.not_le.mpr h), NameKnown]
  cases exportNameIndex m exports index with
  | none => exact iff_of_true ⟨_, rfl⟩ fun _ h => nomatch h
  | some nameIndex =>
      dsimp only
      split
      · next htable =>
          split
          · next hnull => exact iff_of_false (fun ⟨_, h⟩ => nomatch h) fun h => h _ rfl htable hnull
          · next hname =>
              refine iff_of_true ⟨_, rfl⟩ fun _ h _ => ?_
              rw [← Option.some.inj h]
              exact hname
      · next htable => exact iff_of_true ⟨_, rfl⟩ fun _ _ h => absurd h htable

theorem ordinal_of_entry {index : Nat} {entry : PhMappedImageExportEntry}
    (h : phGetMappedImageExportEntry m exports index = .ok entry) :
    entry.ordinal = (index % 2 ^ 16 + exports.base m % 2 ^ 16) % 2 ^ 16 := by
  rw [phGetMappedImageExportEntry] at h
  split at h
  · cases h
  · split at h
    · split at h
      · split at h
        · cases h
        · exact Except.ok.inj h ▸ rfl
      · exact Except.ok.inj h ▸ rfl
    · exact Except.ok.inj h ▸ rfl

theorem name_of_entry {index : Nat} {entry : PhMappedImageExportEntry}
    (h : phGetMappedImageExportEntry m exports index = .ok entry) (hname : entry.name ≠ 0) :
    ∃ nameIndex < exports.numberOfNames m, exports.ordinalTable ≠ 0 ∧
      exports.ordinal m nameIndex = index ∧ entry.name = exports.name m nameIndex := by
  rw [phGetMappedImageExportEntry] at h
  split at h
  · cases h
  · split at h
    · next nameIndex hindex =>
        split at h
        · split at h
          · cases h
          · obtain rfl := Except.ok.inj h
            rw [exportNameIndex] at hindex
            split at hindex
            · next htable =>
                obtain ⟨hfound, hmem⟩ :=
                  And.intro (List.find?_some hindex) (List.mem_of_find?_eq_some hindex)
                exact ⟨nameIndex, List.mem_range.mp hmem, htable, (beq_iff_eq.mp hfound).symm, rfl⟩
            · cases hindex
        · obtain rfl := Except.ok.inj h
          exact absurd rfl hname
    · obtain rfl := Except.ok.inj h
      exact absurd rfl hname

theorem exportAddress_ordinal {index : Nat} (h : index < exports.numberOfFunctions m)
    (hfew : exports.numberOfFunctions m ≤ 65536) :
    exportAddress m exports ((index % 2 ^ 16 + exports.base m % 2 ^ 16) % 2 ^ 16) =
      .ok (exports.address m index) := by
  have hback : ((index % 2 ^ 16 + exports.base m % 2 ^ 16) % 2 ^ 16 +
      (2 ^ 16 - exports.base m % 2 ^ 16)) % 2 ^ 16 = index := by omega
  rw [exportAddress, hback, if_neg (Nat.not_le.mpr h)]

/-! ## Exports -/

/-- Exports that `PhGetMappedImageExportsEx` has found, of at most `65536` functions. -/
structure FoundExports (m : Mem) where
  image : PhMappedImage
  arm64x : Bool
  exports : PhMappedImageExports
  found : (phGetMappedImageExportsEx image arm64x).val m = .ok exports
  few : exports.numberOfFunctions m ≤ 65536

def FoundExports.directory (found : FoundExports m) : ImageDataDirectory :=
  if found.arm64x then found.exports.dataDirectoryARM64X else headerDirectory m found.exports

structure ExportsMeet (m : Mem) (found : FoundExports m) : Prop where
  searched : ∀ string, phLookupMappedImageExportName m found.exports string ≠ none
  sorted : ∀ names, SortedNames m found.exports names → ∀ string i,
    phLookupMappedImageExportName m found.exports string = some (some i) ↔
      i < found.exports.numberOfNames m ∧ names i = string
  ordinals : ∀ index < found.exports.numberOfFunctions m, ∀ entry,
    phGetMappedImageExportEntry m found.exports index = .ok entry →
      Resolves found.directory (found.exports.address m index)
        (phGetMappedImageExportFunction m found.exports none entry.ordinal)
  names : ∀ names, SortedNames m found.exports names →
    ∀ index < found.exports.numberOfFunctions m, ∀ entry,
      phGetMappedImageExportEntry m found.exports index = .ok entry → entry.name ≠ 0 →
        ∀ string : PcStr, StandsAt m string.chars entry.name → ∀ ordinal,
          Resolves found.directory (found.exports.address m index)
            (phGetMappedImageExportFunction m found.exports (some string) ordinal)

/-- There is a table to search, the search comes to no range that is too high up, and the function
of a known name is taken for a forwarder when its RVA is in the directory, and then is in a
section. -/
structure ExportsFit (m : Mem) (found : FoundExports m) : Prop where
  searched : found.exports.numberOfNames m ≠ 0 → found.exports.namePointerTable ≠ 0 ∧
    ∀ string low high,
      SearchVisits m found.exports string 0 (found.exports.numberOfNames m - 1) low high →
        low + high < 2 ^ 31
  forwarders : ∀ index < found.exports.numberOfFunctions m, NameKnown m found.exports index →
    (isForwarder m found.exports (found.exports.address m index) ↔
        InDirectory found.directory (found.exports.address m index)) ∧
      (isForwarder m found.exports (found.exports.address m index) →
        found.exports.rvaToVa m (found.exports.address m index) ≠ 0)

theorem function_of_ordinal {index : Nat} {entry : PhMappedImageExportEntry}
    (hindex : index < exports.numberOfFunctions m) (hfew : exports.numberOfFunctions m ≤ 65536)
    (hentry : phGetMappedImageExportEntry m exports index = .ok entry) :
    phGetMappedImageExportFunction m exports none entry.ordinal =
      some (exportFunction m exports (exports.address m index)) := by
  rw [phGetMappedImageExportFunction, findExportAddress, ordinal_of_entry hentry,
    exportAddress_ordinal hindex hfew]
  rfl

theorem function_of_name {index nameIndex : Nat} (hindex : index < exports.numberOfFunctions m)
    (hfew : exports.numberOfFunctions m ≤ 65536) (htable : exports.ordinalTable ≠ 0)
    (hordinal : exports.ordinal m nameIndex = index)
    (hlookup : phLookupMappedImageExportName m exports string = some (some nameIndex))
    (ordinal : Nat) :
    phGetMappedImageExportFunction m exports (some string) ordinal =
      some (exportFunction m exports (exports.address m index)) := by
  have hlt : index < 2 ^ 16 := by omega
  have haddress := exportAddress_ordinal hindex hfew
  rw [Nat.mod_eq_of_lt hlt] at haddress
  rw [phGetMappedImageExportFunction, findExportAddress, hlookup]
  dsimp only
  rw [if_neg htable, hordinal, haddress]
  rfl

theorem mappedImageExports_meet_iff (found : FoundExports m) :
    ExportsMeet m found ↔ ExportsFit m found := by
  have hsearched : (∀ string, phLookupMappedImageExportName m found.exports string ≠ none) ↔ _ :=
    forall_congr' fun string =>
      phLookupMappedImageExportName_ne_none_iff m found.exports string
  constructor
  · intro h
    refine ⟨fun hnames => ?_, fun index hindex hknown => ?_⟩
    · have hall := hsearched.mp h.searched
      exact ⟨(hall ⟨[], List.not_mem_nil⟩ hnames).1, fun string => (hall string hnames).2⟩
    · obtain ⟨entry, hentry⟩ := (phGetMappedImageExportEntry_ok_iff hindex).mpr hknown
      have hresolves := h.ordinals index hindex entry hentry
      rw [function_of_ordinal hindex found.few hentry, resolves_iff] at hresolves
      exact hresolves
  · intro h
    have hnever := hsearched.mpr fun string hnames =>
      ⟨(h.searched hnames).1, (h.searched hnames).2 string⟩
    have hsorted : ∀ names, SortedNames m found.exports names → ∀ string i, _ ↔ _ :=
      fun names hnames string i => phLookupMappedImageExportName_sorted hnames (hnever string) i
    refine ⟨hnever, hsorted, fun index hindex entry hentry => ?_,
      fun names hnames index hindex entry hentry hname string hstring ordinal => ?_⟩
    · rw [function_of_ordinal hindex found.few hentry, resolves_iff]
      exact h.forwarders index hindex ((phGetMappedImageExportEntry_ok_iff hindex).mp ⟨_, hentry⟩)
    · obtain ⟨nameIndex, hlt, htable, hordinal, hname⟩ := name_of_entry hentry hname
      have hstands : names nameIndex = string :=
        (hnames.stands nameIndex hlt).unique (hname ▸ hstring)
      rw [function_of_name hindex found.few htable hordinal
        ((hsorted names hnames string nameIndex).mpr ⟨hlt, hstands⟩), resolves_iff]
      exact h.forwarders index hindex ((phGetMappedImageExportEntry_ok_iff hindex).mp ⟨_, hentry⟩)

/-- A file with one function and the number of one name, but without a table of names. The RVA of
the function is in the directory, which ends beyond `2 ^ 32`. -/
def namelessExports : Mem := fileMem (smallHeaders imageNtOptionalHdr64Magic 0 0xfffff800 44 ++
  [(388, 4, 1), (392, 4, 1), (396, 4, 0x1028), (408, 4, 0x1004)])

def namelessFound : FoundExports namelessExports where
  image := smallImage imageNtOptionalHdr64Magic 412 (by omega)
  arm64x := false
  exports :=
    { mappedImage := smallImage imageNtOptionalHdr64Magic 412 (by omega)
      numberOfEntries := 1
      dataDirectory := 0x100c8
      dataDirectoryARM64X := ⟨0, 0⟩
      exportDirectory := 0x10170
      addressTable := 0x10198
      namePointerTable := 0
      ordinalTable := 0 }
  found := by decide
  few := by decide

theorem phLookupMappedImageExportName_null (string : PcStr) :
    phLookupMappedImageExportName namelessExports namelessFound.exports string = none := by
  by_contra h
  have hnames : namelessFound.exports.numberOfNames namelessExports ≠ 0 := by decide
  exact ((phLookupMappedImageExportName_ne_none_iff _ _ string).mp h hnames).1 rfl

theorem mappedImageExports_strays :
    (∀ string,
        phLookupMappedImageExportName namelessExports namelessFound.exports string = none) ∧
      phGetMappedImageExportFunction namelessExports namelessFound.exports none 0 =
        some (.ok ⟨0x1004, 0⟩) ∧
      InDirectory namelessFound.directory 0x1004 ∧
      ¬ ExportsMeet namelessExports namelessFound := by
  refine ⟨phLookupMappedImageExportName_null, by decide, by decide, fun h => ?_⟩
  exact h.searched ⟨[], List.not_mem_nil⟩ (phLookupMappedImageExportName_null _)

end SystemInformer.PhLib
