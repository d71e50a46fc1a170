import SystemInformer.PhLib.VersionInfo

/-!
# Looking up keys in a version resource

A scan goes from child to child by the lengths that the children give, and ends at a child with
length 0 or at the end of the block, which the block gives itself. So it ends, and it is not misled
by a wrong length unless it comes to a child: a child's key is compared without a look at where the
resource ends, and a child that has the key is returned with whatever length it has.

What a scan does is told by the children it visits (`Visits`): it stays inside the resource when the
comparison with each of them does, and what it finds is the visited child with the key. A lookup
through several levels is sound when the scan of every block that it comes to is.
-/

namespace SystemInformer.PhLib

variable {resource : List UInt8} {towlower : WChar → WChar}

/-! ## Reading -/

theorem length_wordsOf : ∀ bytes : List UInt8, (wordsOf bytes).length = bytes.length / 2
  | [] => rfl
  | [_] => by simp [wordsOf]
  | low :: high :: rest => by
      rw [wordsOf, List.length_cons, length_wordsOf rest, List.length_cons, List.length_cons]
      omega

theorem length_charsAt (offset : Nat) :
    (charsAt resource offset).length = (resource.length - offset) / 2 := by
  rw [charsAt, length_wordsOf, List.length_drop]

theorem exists_ushortAt {offset offset' : Nat} (h : charsAt resource offset' ≠ [])
    (hle : offset ≤ offset') : ∃ value, ushortAt resource offset = some value := by
  have hpos := List.length_pos_iff.mpr h
  rw [length_charsAt] at hpos
  have hpos' : 0 < (charsAt resource offset).length := by
    rw [length_charsAt]
    omega
  obtain ⟨c, chars, hchars⟩ := List.exists_cons_of_length_pos hpos'
  exact ⟨c.toNat, by rw [ushortAt, hchars]; rfl⟩

def lengthOf (resource : List UInt8) (block : Nat) : Nat := (ushortAt resource block).getD 0

def valueLengthOf (resource : List UInt8) (block : Nat) : Nat :=
  (ushortAt resource (block + 2)).getD 0

def valueAt (resource : List UInt8) (block : Nat) : Nat :=
  block + alignUpULong (offsetKey +
    2 * ((countStringZAt resource (block + offsetKey)).getD 0 + 1))

def firstChild (resource : List UInt8) (block : Nat) : Nat :=
  valueAt resource block + alignUpULong (valueLengthOf resource block *
    if (ushortAt resource (block + 4)).getD 0 ≠ 0 then 2 else 1)

theorem countStringZAt_cases (resource : List UInt8) (offset : Nat) :
    (0 ∈ charsAt resource offset ∧ ∃ count, countStringZAt resource offset = some count) ∨
      (0 ∉ charsAt resource offset ∧ countStringZAt resource offset = none) := by
  cases hcount : countStringZAt resource offset with
  | none =>
      refine Or.inr ⟨fun hmem => ?_, rfl⟩
      have hall := List.findIdx?_eq_none_iff.mp hcount 0 hmem
      exact absurd hall (by decide)
  | some count =>
      obtain ⟨hlt, hzero, -⟩ := List.findIdx?_eq_some_iff_getElem.mp hcount
      refine Or.inl ⟨?_, count, rfl⟩
      rw [← beq_iff_eq.mp hzero]
      exact List.getElem_mem hlt

theorem phGetFileVersionInfoValue_eq (block : Nat) :
    phGetFileVersionInfoValue resource block =
      if 0 ∈ charsAt resource (block + offsetKey) then some (valueAt resource block) else none := by
  rw [phGetFileVersionInfoValue, valueAt]
  rcases countStringZAt_cases resource (block + offsetKey) with
    ⟨hmem, count, hcount⟩ | ⟨hmem, hcount⟩
  · rw [hcount, if_pos hmem]
    rfl
  · rw [hcount, if_neg hmem]
    rfl

/-! ## Comparing a key -/

def Differs (towlower : WChar → WChar) (chars key : List WChar) : Prop :=
  ∃ (i : Nat) (c k : WChar), chars[i]? = some c ∧ key[i]? = some k ∧ towlower c ≠ towlower k ∧
    ∀ j < i, ∀ d : WChar, chars[j]? = some d → towlower d ≠ 0

/-- The characters that the comparison looks at, and the one behind a key that is equal, are
there. -/
def KeyInside (towlower : WChar → WChar) (chars key : List WChar) : Prop :=
  key.length < chars.length ∨ Differs towlower chars key

theorem wcsnicmpEqual_false_iff (chars key : List WChar) :
    wcsnicmpEqual towlower chars key = some false ↔ Differs towlower chars key := by
  induction key generalizing chars with
  | nil =>
      rw [wcsnicmpEqual.eq_def]
      refine iff_of_false (by simp) ?_
      rintro ⟨i, c, k, -, hk, -⟩
      rw [List.getElem?_nil] at hk
      cases hk
  | cons k key ih =>
      cases chars with
      | nil =>
          refine iff_of_false (fun h => nomatch h) ?_
          rintro ⟨i, c, k, hc, -⟩
          rw [List.getElem?_nil] at hc
          cases hc
      | cons c chars =>
          rw [wcsnicmpEqual]
          by_cases hck : towlower c = towlower k
          · rw [if_neg (not_not.mpr hck)]
            by_cases hzero : towlower c = 0
            · rw [if_pos hzero]
              refine iff_of_false (by simp) ?_
              rintro ⟨i, d, e, hd, he, hne, hbefore⟩
              cases i with
              | zero =>
                  rw [List.getElem?_cons_zero] at hd he
                  exact hne (Option.some.inj hd ▸ Option.some.inj he ▸ hck)
              | succ i => exact hbefore 0 (Nat.succ_pos i) c rfl hzero
            · rw [if_neg hzero, ih chars]
              constructor
              · rintro ⟨i, d, e, hd, he, hne, hbefore⟩
                refine ⟨i + 1, d, e, hd, he, hne, fun j hj x hx => ?_⟩
                cases j with
                | zero => exact Option.some.inj hx ▸ hzero
                | succ j => exact hbefore j (Nat.lt_of_succ_lt_succ hj) x hx
              · rintro ⟨i, d, e, hd, he, hne, hbefore⟩
                cases i with
                | zero =>
                    rw [List.getElem?_cons_zero] at hd he
                    exact absurd (Option.some.inj hd ▸ Option.some.inj he ▸ hck) hne
                | succ i =>
                    exact ⟨i, d, e, hd, he, hne,
                      fun j hj x hx => hbefore (j + 1) (Nat.succ_lt_succ hj) x hx⟩
          · rw [if_pos hck]
            exact iff_of_true rfl ⟨0, c, k, rfl, rfl, hck, fun j hj => absurd hj (Nat.not_lt_zero j)⟩

theorem wcsnicmpEqual_ne_none {chars key : List WChar} (h : key.length ≤ chars.length) :
    wcsnicmpEqual towlower chars key ≠ none := by
  induction key generalizing chars with
  | nil =>
      rw [wcsnicmpEqual.eq_def]
      simp
  | cons k key ih =>
      cases chars with
      | nil => cases h
      | cons c chars =>
          rw [wcsnicmpEqual]
          split
          · simp
          · split
            · simp
            · exact ih (Nat.le_of_succ_le_succ h)

theorem childHasKey_isSome_iff (child : Nat) (key : List WChar) :
    (∃ found, childHasKey resource towlower child key = some found) ↔
      KeyInside towlower (charsAt resource (child + offsetKey)) key := by
  rw [childHasKey, KeyInside, ← wcsnicmpEqual_false_iff]
  generalize charsAt resource (child + offsetKey) = chars
  cases hequal : wcsnicmpEqual towlower chars key with
  | none =>
      refine iff_of_false (fun ⟨_, h⟩ => nomatch h) ?_
      rintro (hlt | hfalse)
      · exact wcsnicmpEqual_ne_none (Nat.le_of_lt hlt) hequal
      · cases hfalse
  | some equal =>
      cases equal with
      | false => exact iff_of_true ⟨false, rfl⟩ (Or.inr rfl)
      | true =>
          constructor
          · rintro ⟨found, hfound⟩
            obtain ⟨c, hc, -⟩ := Option.map_eq_some_iff.mp hfound
            exact Or.inl (List.getElem?_eq_some_iff.mp hc).1
          · rintro (hlt | hfalse)
            · exact ⟨_, by rw [List.getElem?_eq_getElem hlt]; rfl⟩
            · cases hfalse

theorem ushortAt_of_childHasKey {child : Nat} {key : List WChar} {found : Bool}
    (h : childHasKey resource towlower child key = some found) {offset : Nat}
    (hoffset : offset ≤ 6) : ∃ value, ushortAt resource (child + offset) = some value := by
  have hinside := (childHasKey_isSome_iff child key).mp ⟨found, h⟩
  have hchars : charsAt resource (child + offsetKey) ≠ [] := by
    intro hnil
    rw [hnil] at hinside
    rcases hinside with hlt | ⟨i, c, k, hc, -⟩
    · exact absurd hlt (Nat.not_lt_zero _)
    · rw [List.getElem?_nil] at hc
      cases hc
  exact exists_ushortAt hchars (Nat.add_le_add_left hoffset child)

theorem zero_mem_of_childHasKey {child : Nat} {key : List WChar}
    (h : childHasKey resource towlower child key = some true) :
    0 ∈ charsAt resource (child + offsetKey) := by
  rw [childHasKey] at h
  split at h
  · cases h
  · cases h
  · obtain ⟨c, hc, hzero⟩ := Option.map_eq_some_iff.mp h
    rw [← beq_iff_eq.mp hzero]
    exact List.mem_of_getElem? hc

/-! ## A scan -/

/-- The children that a scan comes to from one of them on: those behind it as long as none has the
key. -/
inductive Visits (resource : List UInt8) (towlower : WChar → WChar) (blockEnd : Nat)
    (key : List WChar) : Nat → Nat → Prop
  | here {child : Nat} (h : child < blockEnd) : Visits resource towlower blockEnd key child child
  | next {child child' : Nat} (h : child < blockEnd)
      (hother : childHasKey resource towlower child key = some false)
      (hlength : lengthOf resource child ≠ 0)
      (hrest : Visits resource towlower blockEnd key
        (child + alignUpULong (lengthOf resource child)) child') :
      Visits resource towlower blockEnd key child child'

theorem Visits.le {blockEnd child child' : Nat} {key : List WChar}
    (h : Visits resource towlower blockEnd key child child') : child ≤ child' := by
  induction h with
  | here _ => exact le_refl _
  | next _ _ _ _ ih => exact (Nat.le_add_right _ _).trans ih

/-- What a scan does, told by the children it visits: it answers when it compares them inside the
resource, and it finds the one that has the key. -/
theorem childLoop_iff (blockEnd : Nat) (key : List WChar) (child : Nat) :
    ((∃ result, childLoop resource towlower blockEnd key child = some result) ↔
      ∀ child', Visits resource towlower blockEnd key child child' →
        KeyInside towlower (charsAt resource (child' + offsetKey)) key) ∧
    ∀ child', childLoop resource towlower blockEnd key child = some (some child') ↔
      Visits resource towlower blockEnd key child child' ∧
        childHasKey resource towlower child' key = some true := by
  fun_induction childLoop resource towlower blockEnd key child with
  | case1 child hlt hkey =>
      have hnot : ¬ KeyInside towlower (charsAt resource (child + offsetKey)) key := by
        rw [← childHasKey_isSome_iff, hkey]
        rintro ⟨_, h⟩
        cases h
      refine ⟨iff_of_false (fun ⟨_, h⟩ => nomatch h) fun h => hnot (h child (.here hlt)),
        fun child' => iff_of_false (fun h => nomatch h) ?_⟩
      rintro ⟨hvisits, hfound⟩
      cases hvisits with
      | here _ =>
          rw [hkey] at hfound
          cases hfound
      | next _ hother _ _ =>
          rw [hkey] at hother
          cases hother
  | case2 child hlt hkey =>
      have hstop : ∀ {child'}, Visits resource towlower blockEnd key child child' →
          child' = child := by
        intro child' hvisits
        cases hvisits with
        | here _ => rfl
        | next _ hother _ _ =>
            rw [hkey] at hother
            cases hother
      refine ⟨iff_of_true ⟨_, rfl⟩ fun child' hvisits => ?_, fun child' => ⟨?_, ?_⟩⟩
      · rw [hstop hvisits]
        exact (childHasKey_isSome_iff child key).mp ⟨true, hkey⟩
      · intro h
        obtain rfl := Option.some.inj (Option.some.inj h)
        exact ⟨.here hlt, hkey⟩
      · rintro ⟨hvisits, -⟩
        rw [hstop hvisits]
  | case3 child hlt hkey hlength =>
      obtain ⟨value, hvalue⟩ := ushortAt_of_childHasKey hkey (show 0 ≤ 6 by decide)
      rw [Nat.add_zero, hlength] at hvalue
      cases hvalue
  | case4 child hlt hkey hlength =>
      have hzero : lengthOf resource child = 0 := by rw [lengthOf, hlength, Option.getD_some]
      have hstop : ∀ {child'}, Visits resource towlower blockEnd key child child' →
          child' = child := by
        intro child' hvisits
        cases hvisits with
        | here _ => rfl
        | next _ _ hlength _ => exact absurd hzero hlength
      refine ⟨iff_of_true ⟨_, rfl⟩ fun child' hvisits => ?_,
        fun child' => iff_of_false (fun h => nomatch h) ?_⟩
      · rw [hstop hvisits]
        exact (childHasKey_isSome_iff child key).mp ⟨false, hkey⟩
      · rintro ⟨hvisits, hfound⟩
        rw [hstop hvisits, hkey] at hfound
        cases hfound
  | case5 child hlt hkey length hlength hne ih =>
      have hlengthOf : lengthOf resource child = length := by
        rw [lengthOf, hlength, Option.getD_some]
      obtain ⟨ihanswers, ihfinds⟩ := ih
      refine ⟨ihanswers.trans ⟨fun h child' hvisits => ?_, fun h child' hvisits => ?_⟩,
        fun child' => (ihfinds child').trans ⟨?_, ?_⟩⟩
      · cases hvisits with
        | here _ => exact (childHasKey_isSome_iff child key).mp ⟨false, hkey⟩
        | next _ _ _ hrest => exact h child' (hlengthOf ▸ hrest)
      · exact h child' (.next hlt hkey (hlengthOf ▸ hne) (hlengthOf ▸ hvisits))
      · rintro ⟨hvisits, hfound⟩
        exact ⟨.next hlt hkey (hlengthOf ▸ hne) (hlengthOf ▸ hvisits), hfound⟩
      · rintro ⟨hvisits, hfound⟩
        cases hvisits with
        | here _ =>
            rw [hkey] at hfound
            cases hfound
        | next _ _ _ hrest => exact ⟨hlengthOf ▸ hrest, hfound⟩
  | case6 child hlt =>
      have hnone : ∀ {child'}, ¬ Visits resource towlower blockEnd key child child' := by
        intro child' hvisits
        cases hvisits with
        | here h => exact hlt h
        | next h _ _ _ => exact hlt h
      exact ⟨iff_of_true ⟨_, rfl⟩ fun child' hvisits => absurd hvisits hnone,
        fun child' => iff_of_false (fun h => nomatch h) fun h => hnone h.1⟩

/-! ## One level -/

def Comes (resource : List UInt8) (towlower : WChar → WChar) (block : Nat) (key : List WChar)
    (child : Nat) : Prop :=
  Visits resource towlower (block + lengthOf resource block) key (firstChild resource block) child

def Finds (resource : List UInt8) (towlower : WChar → WChar) (block : Nat) (key : List WChar)
    (child : Nat) : Prop :=
  Comes resource towlower block key child ∧ childHasKey resource towlower child key = some true

def Inside (resource : List UInt8) (block child : Nat) : Prop :=
  block ≤ child ∧ child + lengthOf resource child ≤ block + lengthOf resource block

/-- A block whose key is terminated, with children that are compared inside the resource as far as
the scan comes to them; the one that is looked for does not reach behind the block. -/
structure BlockSound (resource : List UInt8) (towlower : WChar → WChar) (block : Nat)
    (key : List WChar) : Prop where
  terminated : 0 ∈ charsAt resource (block + offsetKey)
  compared : ∀ child, Comes resource towlower block key child →
    KeyInside towlower (charsAt resource (child + offsetKey)) key
  fits : ∀ child, Finds resource towlower block key child →
    child + lengthOf resource child ≤ block + lengthOf resource block

theorem phGetFileVersionInfoKey_eq (block : Nat) (key : List WChar) :
    phGetFileVersionInfoKey resource towlower block key =
      if 0 ∈ charsAt resource (block + offsetKey) then
        childLoop resource towlower (block + lengthOf resource block) key
          (firstChild resource block)
      else none := by
  rw [phGetFileVersionInfoKey, phGetFileVersionInfoValue_eq]
  split
  · next hmem =>
      have hne : charsAt resource (block + offsetKey) ≠ [] := List.ne_nil_of_mem hmem
      obtain ⟨length, hlength⟩ := exists_ushortAt hne (Nat.le_add_right block offsetKey)
      obtain ⟨valueLength, hvalueLength⟩ :=
        exists_ushortAt hne (show block + 2 ≤ block + offsetKey by simp [offsetKey])
      obtain ⟨type, htype⟩ :=
        exists_ushortAt hne (show block + 4 ≤ block + offsetKey by simp [offsetKey])
      rw [lengthOf, firstChild, valueLengthOf, hlength, hvalueLength, htype]
      rfl
  · rfl

theorem phGetFileVersionInfoKey_isSome_iff (block : Nat) (key : List WChar) :
    (∃ result, phGetFileVersionInfoKey resource towlower block key = some result) ↔
      0 ∈ charsAt resource (block + offsetKey) ∧
        ∀ child, Comes resource towlower block key child →
          KeyInside towlower (charsAt resource (child + offsetKey)) key := by
  rw [phGetFileVersionInfoKey_eq]
  split
  · next hmem => exact (childLoop_iff _ key _).1.trans (and_iff_right hmem).symm
  · next hmem => exact iff_of_false (fun ⟨_, h⟩ => nomatch h) fun h => hmem h.1

theorem phGetFileVersionInfoKey_found_iff (block : Nat) (key : List WChar) (child : Nat) :
    phGetFileVersionInfoKey resource towlower block key = some (some child) ↔
      0 ∈ charsAt resource (block + offsetKey) ∧ Finds resource towlower block key child := by
  rw [phGetFileVersionInfoKey_eq]
  split
  · next hmem => exact ((childLoop_iff _ key _).2 child).trans (and_iff_right hmem).symm
  · next hmem => exact iff_of_false (fun h => nomatch h) fun h => hmem h.1

theorem firstChild_ge (block : Nat) : block ≤ firstChild resource block := by
  rw [firstChild, valueAt, Nat.add_assoc]
  exact Nat.le_add_right _ _

/-- A call ends, reads inside the resource, and a block that it gives lies inside its parent. -/
structure KeyMeets (resource : List UInt8) (towlower : WChar → WChar) (block : Nat)
    (key : List WChar) : Prop where
  answers : ∃ result, phGetFileVersionInfoKey resource towlower block key = some result
  inside : ∀ child, phGetFileVersionInfoKey resource towlower block key = some (some child) →
    Inside resource block child

theorem keyMeets_iff (block : Nat) (key : List WChar) :
    KeyMeets resource towlower block key ↔ BlockSound resource towlower block key := by
  constructor
  · intro h
    obtain ⟨hmem, hcompared⟩ := (phGetFileVersionInfoKey_isSome_iff block key).mp h.answers
    refine ⟨hmem, hcompared, fun child hfinds => ?_⟩
    exact (h.inside child ((phGetFileVersionInfoKey_found_iff block key child).mpr
      ⟨hmem, hfinds⟩)).2
  · intro h
    refine ⟨(phGetFileVersionInfoKey_isSome_iff block key).mpr ⟨h.terminated, h.compared⟩, ?_⟩
    intro child hfound
    obtain ⟨-, hfinds⟩ := (phGetFileVersionInfoKey_found_iff block key child).mp hfound
    exact ⟨(firstChild_ge block).trans hfinds.1.le, h.fits child hfinds⟩

theorem Finds.value {block child : Nat} {key : List WChar}
    (h : Finds resource towlower block key child) :
    ushortAt resource (child + 2) = some (valueLengthOf resource child) ∧
      phGetFileVersionInfoValue resource child = some (valueAt resource child) := by
  obtain ⟨value, hvalue⟩ := ushortAt_of_childHasKey h.2 (show 2 ≤ 6 by decide)
  refine ⟨by rw [valueLengthOf, hvalue, Option.getD_some], ?_⟩
  rw [phGetFileVersionInfoValue_eq, if_pos (zero_mem_of_childHasKey h.2)]

/-! ## The lookups -/

/-- The lookup of a variable ends, reads inside the resource, and the blocks that it goes through
and the value that it gives lie inside their parents. -/
structure VarMeets (resource : List UInt8) (towlower : WChar → WChar) (keyName : List WChar) :
    Prop where
  answers : ∃ result, phGetFileVersionVarFileInfoValue resource towlower keyName = some result
  block : ∀ block,
    phGetFileVersionInfoKey resource towlower 0 varfileBlockName = some (some block) →
      Inside resource 0 block
  value : ∀ block value,
    phGetFileVersionInfoKey resource towlower 0 varfileBlockName = some (some block) →
      phGetFileVersionInfoKey resource towlower block keyName = some (some value) →
        Inside resource block value
  buffer : ∀ block value buffer bufferLength,
    phGetFileVersionInfoKey resource towlower 0 varfileBlockName = some (some block) →
      phGetFileVersionInfoKey resource towlower block keyName = some (some value) →
        phGetFileVersionVarFileInfoValue resource towlower keyName =
          some (some (buffer, bufferLength)) →
        bufferLength = 0 ∨
          value ≤ buffer ∧ buffer + bufferLength ≤ value + lengthOf resource value

/-- The blocks on the way to a variable are sound, and its value ends with its block. -/
structure VarSound (resource : List UInt8) (towlower : WChar → WChar) (keyName : List WChar) :
    Prop where
  root : BlockSound resource towlower 0 varfileBlockName
  block : ∀ block, Finds resource towlower 0 varfileBlockName block →
    BlockSound resource towlower block keyName
  value : ∀ block value, Finds resource towlower 0 varfileBlockName block →
    Finds resource towlower block keyName value →
      valueLengthOf resource value = 0 ∨
        valueAt resource value + valueLengthOf resource value ≤ value + lengthOf resource value

theorem phGetFileVersionVarFileInfoValue_found {keyName : List WChar} {block value : Nat}
    (hblock : phGetFileVersionInfoKey resource towlower 0 varfileBlockName = some (some block))
    (hvalue : phGetFileVersionInfoKey resource towlower block keyName = some (some value)) :
    phGetFileVersionVarFileInfoValue resource towlower keyName =
      some (some (valueAt resource value, valueLengthOf resource value)) := by
  obtain ⟨hlength, hbuffer⟩ :=
    ((phGetFileVersionInfoKey_found_iff block keyName value).mp hvalue).2.value
  rw [phGetFileVersionVarFileInfoValue, hblock]
  show (phGetFileVersionInfoKey resource towlower block keyName >>= _) = _
  rw [hvalue]
  show (ushortAt resource (value + 2) >>= _) = _
  rw [hlength]
  show (phGetFileVersionInfoValue resource value >>= _) = _
  rw [hbuffer]
  rfl

theorem varMeets_iff (keyName : List WChar) :
    VarMeets resource towlower keyName ↔ VarSound resource towlower keyName := by
  constructor
  · intro h
    obtain ⟨result, hresult⟩ := h.answers
    rw [phGetFileVersionVarFileInfoValue] at hresult
    obtain ⟨first, hfirst, hresult⟩ := Option.bind_eq_some_iff.mp hresult
    have hroot : BlockSound resource towlower 0 varfileBlockName :=
      (keyMeets_iff 0 varfileBlockName).mp ⟨⟨first, hfirst⟩, h.block⟩
    have hfound : ∀ {block}, Finds resource towlower 0 varfileBlockName block →
        phGetFileVersionInfoKey resource towlower 0 varfileBlockName = some (some block) :=
      fun hfinds => (phGetFileVersionInfoKey_found_iff 0 _ _).mpr ⟨hroot.terminated, hfinds⟩
    have hblock : ∀ block, Finds resource towlower 0 varfileBlockName block →
        BlockSound resource towlower block keyName := by
      intro block hfinds
      obtain rfl := Option.some.inj (hfirst.symm.trans (hfound hfinds))
      obtain ⟨second, hsecond, -⟩ := Option.bind_eq_some_iff.mp hresult
      exact (keyMeets_iff block keyName).mp
        ⟨⟨second, hsecond⟩, fun value => h.value block value (hfound hfinds)⟩
    refine ⟨hroot, hblock, fun block value hfinds hfinds' => ?_⟩
    have hfound' : phGetFileVersionInfoKey resource towlower block keyName = some (some value) :=
      (phGetFileVersionInfoKey_found_iff block keyName value).mpr
        ⟨(hblock block hfinds).terminated, hfinds'⟩
    exact (h.buffer block value _ _ (hfound hfinds) hfound'
      (phGetFileVersionVarFileInfoValue_found (hfound hfinds) hfound')).imp_right fun h => h.2
  · intro h
    have hroot := (keyMeets_iff 0 varfileBlockName).mpr h.root
    have hblock : ∀ {block},
        phGetFileVersionInfoKey resource towlower 0 varfileBlockName = some (some block) →
          KeyMeets resource towlower block keyName := fun hfound => (keyMeets_iff _ keyName).mpr
      (h.block _ ((phGetFileVersionInfoKey_found_iff 0 _ _).mp hfound).2)
    refine ⟨?_, hroot.inside, fun block value hfound => (hblock hfound).inside value, ?_⟩
    · obtain ⟨first, hfirst⟩ := hroot.answers
      cases first with
      | none => exact ⟨none, by rw [phGetFileVersionVarFileInfoValue, hfirst]; rfl⟩
      | some block =>
          obtain ⟨second, hsecond⟩ := (hblock hfirst).answers
          cases second with
          | none =>
              refine ⟨none, ?_⟩
              rw [phGetFileVersionVarFileInfoValue, hfirst]
              show (phGetFileVersionInfoKey resource towlower block keyName >>= _) = _
              rw [hsecond]
              rfl
          | some value => exact ⟨_, phGetFileVersionVarFileInfoValue_found hfirst hsecond⟩
    · intro block value buffer bufferLength hfound hfound' hlookup
      rw [phGetFileVersionVarFileInfoValue_found hfound hfound'] at hlookup
      obtain ⟨rfl, rfl⟩ := Prod.mk.inj (Option.some.inj (Option.some.inj hlookup))
      refine (h.value block value ((phGetFileVersionInfoKey_found_iff 0 _ _).mp hfound).2
        ((phGetFileVersionInfoKey_found_iff block _ _).mp hfound').2).imp_right fun hle => ⟨?_, hle⟩
      rw [valueAt]
      exact Nat.le_add_right _ _

/-- The lookup of a string ends, reads inside the resource, and the blocks that it goes through lie
inside their parents. -/
structure StringMeets (resource : List UInt8) (towlower : WChar → WChar) (langCodePage : ULong)
    (keyName : List WChar) : Prop where
  answers : ∃ result, phGetFileVersionInfoString2 resource towlower langCodePage keyName =
    some result
  strings : ∀ strings,
    phGetFileVersionInfoKey resource towlower 0 blockInfoName = some (some strings) →
      Inside resource 0 strings
  lang : ∀ strings lang,
    phGetFileVersionInfoKey resource towlower 0 blockInfoName = some (some strings) →
      phGetFileVersionInfoKey resource towlower strings (langNameString langCodePage) =
        some (some lang) →
        Inside resource strings lang
  name : ∀ strings lang name,
    phGetFileVersionInfoKey resource towlower 0 blockInfoName = some (some strings) →
      phGetFileVersionInfoKey resource towlower strings (langNameString langCodePage) =
        some (some lang) →
        phGetFileVersionInfoKey resource towlower lang keyName = some (some name) →
          Inside resource lang name

/-- The blocks on the way to a string are sound, and a string that is taken is terminated. -/
structure StringSound (resource : List UInt8) (towlower : WChar → WChar) (langCodePage : ULong)
    (keyName : List WChar) : Prop where
  root : BlockSound resource towlower 0 blockInfoName
  strings : ∀ strings, Finds resource towlower 0 blockInfoName strings →
    BlockSound resource towlower strings (langNameString langCodePage)
  lang : ∀ strings lang, Finds resource towlower 0 blockInfoName strings →
    Finds resource towlower strings (langNameString langCodePage) lang →
      BlockSound resource towlower lang keyName
  name : ∀ strings lang name, Finds resource towlower 0 blockInfoName strings →
    Finds resource towlower strings (langNameString langCodePage) lang →
      Finds resource towlower lang keyName name →
        2 < valueLengthOf resource name → 0 ∈ charsAt resource (valueAt resource name)

theorem phGetFileVersionInfoString2_found {langCodePage : ULong} {keyName : List WChar}
    {strings lang name : Nat}
    (hstrings : phGetFileVersionInfoKey resource towlower 0 blockInfoName = some (some strings))
    (hlang : phGetFileVersionInfoKey resource towlower strings (langNameString langCodePage) =
      some (some lang))
    (hname : phGetFileVersionInfoKey resource towlower lang keyName = some (some name)) :
    (∃ result, phGetFileVersionInfoString2 resource towlower langCodePage keyName = some result) ↔
      (2 < valueLengthOf resource name → 0 ∈ charsAt resource (valueAt resource name)) := by
  obtain ⟨hlength, hvalue⟩ :=
    ((phGetFileVersionInfoKey_found_iff lang keyName name).mp hname).2.value
  have hlookup : phGetFileVersionInfoString2 resource towlower langCodePage keyName =
      if valueLengthOf resource name ≤ 2 then some none
      else (countStringZAt resource (valueAt resource name)).bind fun count =>
        some (some ((charsAt resource (valueAt resource name)).take count)) := by
    rw [phGetFileVersionInfoString2, hstrings]
    show (phGetFileVersionInfoKey resource towlower strings _ >>= _) = _
    rw [hlang]
    show (phGetFileVersionInfoKey resource towlower lang keyName >>= _) = _
    rw [hname]
    show (ushortAt resource (name + 2) >>= _) = _
    rw [hlength]
    show (if valueLengthOf resource name ≤ 2 then some none
      else (phGetFileVersionInfoValue resource name >>= _)) = _
    rw [hvalue]
    rfl
  rw [hlookup]
  split
  · next hle => exact iff_of_true ⟨_, rfl⟩ fun h => absurd h (by omega)
  · next hlt =>
      rcases countStringZAt_cases resource (valueAt resource name) with
        ⟨hmem, count, hcount⟩ | ⟨hmem, hcount⟩
      · rw [hcount]
        exact iff_of_true ⟨_, rfl⟩ fun _ => hmem
      · rw [hcount]
        exact iff_of_false (fun ⟨_, h⟩ => nomatch h) fun h => hmem (h (by omega))

theorem stringSound_of_meets {langCodePage : ULong} {keyName : List WChar}
    (h : StringMeets resource towlower langCodePage keyName) :
    StringSound resource towlower langCodePage keyName := by
  obtain ⟨result, hresult⟩ := h.answers
  have hlookup := hresult
  rw [phGetFileVersionInfoString2] at hresult
  obtain ⟨first, hfirst, hresult⟩ := Option.bind_eq_some_iff.mp hresult
  have hroot : BlockSound resource towlower 0 blockInfoName :=
    (keyMeets_iff 0 blockInfoName).mp ⟨⟨first, hfirst⟩, h.strings⟩
  have hfoundStrings : ∀ {strings}, Finds resource towlower 0 blockInfoName strings →
      phGetFileVersionInfoKey resource towlower 0 blockInfoName = some (some strings) :=
    fun hfinds => (phGetFileVersionInfoKey_found_iff 0 _ _).mpr ⟨hroot.terminated, hfinds⟩
  -- Each level answers because the one above it has, and so on down.
  have hsecond : ∀ {strings}, Finds resource towlower 0 blockInfoName strings →
      ∃ second, phGetFileVersionInfoKey resource towlower strings (langNameString langCodePage) =
        some second ∧ ∀ lang, second = some lang →
          ∃ third, phGetFileVersionInfoKey resource towlower lang keyName = some third := by
    intro strings hfinds
    obtain rfl := Option.some.inj (hfirst.symm.trans (hfoundStrings hfinds))
    obtain ⟨second, hsecond, hrest⟩ := Option.bind_eq_some_iff.mp hresult
    refine ⟨second, hsecond, ?_⟩
    rintro lang rfl
    obtain ⟨third, hthird, -⟩ := Option.bind_eq_some_iff.mp hrest
    exact ⟨third, hthird⟩
  have hstrings : ∀ strings, Finds resource towlower 0 blockInfoName strings →
      BlockSound resource towlower strings (langNameString langCodePage) := by
    intro strings hfinds
    obtain ⟨second, hsecond, -⟩ := hsecond hfinds
    exact (keyMeets_iff strings _).mp
      ⟨⟨second, hsecond⟩, fun lang => h.lang strings lang (hfoundStrings hfinds)⟩
  have hfoundLang : ∀ {strings lang}, Finds resource towlower 0 blockInfoName strings →
      Finds resource towlower strings (langNameString langCodePage) lang →
        phGetFileVersionInfoKey resource towlower strings (langNameString langCodePage) =
          some (some lang) :=
    fun hfinds hfinds' => (phGetFileVersionInfoKey_found_iff _ _ _).mpr
      ⟨(hstrings _ hfinds).terminated, hfinds'⟩
  have hlang : ∀ strings lang, Finds resource towlower 0 blockInfoName strings →
      Finds resource towlower strings (langNameString langCodePage) lang →
        BlockSound resource towlower lang keyName := by
    intro strings lang hfinds hfinds'
    obtain ⟨second, hsecond, hthird⟩ := hsecond hfinds
    obtain rfl := Option.some.inj (hsecond.symm.trans (hfoundLang hfinds hfinds'))
    exact (keyMeets_iff lang keyName).mp ⟨hthird lang rfl,
      fun name => h.name strings lang name (hfoundStrings hfinds) (hfoundLang hfinds hfinds')⟩
  refine ⟨hroot, hstrings, hlang, fun strings lang name hfinds hfinds' hfinds'' => ?_⟩
  exact (phGetFileVersionInfoString2_found (hfoundStrings hfinds) (hfoundLang hfinds hfinds')
    ((phGetFileVersionInfoKey_found_iff lang keyName name).mpr
      ⟨(hlang strings lang hfinds hfinds').terminated, hfinds''⟩)).mp ⟨result, hlookup⟩

theorem stringMeets_of_sound {langCodePage : ULong} {keyName : List WChar}
    (h : StringSound resource towlower langCodePage keyName) :
    StringMeets resource towlower langCodePage keyName := by
  have hfinds : ∀ {block key child},
      phGetFileVersionInfoKey resource towlower block key = some (some child) →
        Finds resource towlower block key child :=
    fun hfound => ((phGetFileVersionInfoKey_found_iff _ _ _).mp hfound).2
  have hroot := (keyMeets_iff 0 blockInfoName).mpr h.root
  have hstrings : ∀ {strings},
      phGetFileVersionInfoKey resource towlower 0 blockInfoName = some (some strings) →
        KeyMeets resource towlower strings (langNameString langCodePage) :=
    fun hfound => (keyMeets_iff _ _).mpr (h.strings _ (hfinds hfound))
  have hlang : ∀ {strings lang},
      phGetFileVersionInfoKey resource towlower 0 blockInfoName = some (some strings) →
        phGetFileVersionInfoKey resource towlower strings (langNameString langCodePage) =
          some (some lang) → KeyMeets resource towlower lang keyName :=
    fun hfound hfound' => (keyMeets_iff _ _).mpr (h.lang _ _ (hfinds hfound) (hfinds hfound'))
  refine ⟨?_, hroot.inside, fun strings lang hfound => (hstrings hfound).inside lang,
    fun strings lang name hfound hfound' => (hlang hfound hfound').inside name⟩
  obtain ⟨first, hfirst⟩ := hroot.answers
  cases first with
  | none => exact ⟨none, by rw [phGetFileVersionInfoString2, hfirst]; rfl⟩
  | some strings =>
      obtain ⟨second, hsecond⟩ := (hstrings hfirst).answers
      cases second with
      | none =>
          refine ⟨none, ?_⟩
          rw [phGetFileVersionInfoString2, hfirst]
          show (phGetFileVersionInfoKey resource towlower strings _ >>= _) = _
          rw [hsecond]
          rfl
      | some lang =>
          obtain ⟨third, hthird⟩ := (hlang hfirst hsecond).answers
          cases third with
          | none =>
              refine ⟨none, ?_⟩
              rw [phGetFileVersionInfoString2, hfirst]
              show (phGetFileVersionInfoKey resource towlower strings _ >>= _) = _
              rw [hsecond]
              show (phGetFileVersionInfoKey resource towlower lang keyName >>= _) = _
              rw [hthird]
              rfl
          | some name =>
              exact (phGetFileVersionInfoString2_found hfirst hsecond hthird).mpr
                (h.name strings lang name (hfinds hfirst) (hfinds hsecond) (hfinds hthird))

/-! ## Resources -/

/-- A resource whose root is not longer than it. -/
structure VersionResource where
  bytes : List UInt8
  two_le : 2 ≤ bytes.length
  root_le : lengthOf bytes 0 ≤ bytes.length

/-- Looking for a key in the root, for a variable and for a string is safe exactly when the blocks
that the scans come to are sound. -/
theorem fileVersionInfo_meets_iff (resource : VersionResource) (towlower : WChar → WChar)
    (key keyName : List WChar) (langCodePage : ULong) :
    (KeyMeets resource.bytes towlower 0 key ∧ VarMeets resource.bytes towlower keyName ∧
        StringMeets resource.bytes towlower langCodePage keyName) ↔
      BlockSound resource.bytes towlower 0 key ∧ VarSound resource.bytes towlower keyName ∧
        StringSound resource.bytes towlower langCodePage keyName :=
  and_congr (keyMeets_iff 0 key)
    (and_congr (varMeets_iff keyName) ⟨stringSound_of_meets, stringMeets_of_sound⟩)

/-- A root of 14 bytes whose only child begins 6 bytes before its end. -/
def cutChild : VersionResource where
  bytes := [14, 0, 0, 0, 0, 0, 0, 0, 0, 0, 0, 0, 0, 0]
  two_le := by decide
  root_le := by decide

/-- A root of 40 bytes with a child `VarFileInfo` that gives its length as `0x7fff`. -/
def longChild : VersionResource where
  bytes := [40, 0, 0, 0, 0, 0, 0, 0, 0xff, 0x7f, 0, 0, 0, 0] ++
    varfileBlockName.flatMap (fun c => [c.toUInt8, 0]) ++ [0, 0, 0, 0]
  two_le := by decide
  root_le := by decide

theorem phGetFileVersionInfoKey_strays :
    phGetFileVersionInfoKey cutChild.bytes id 0 varfileBlockName = none ∧
      phGetFileVersionInfoKey longChild.bytes id 0 varfileBlockName = some (some 8) ∧
      ¬ Inside longChild.bytes 0 8 ∧
      ¬ KeyMeets cutChild.bytes id 0 varfileBlockName := by
  have hcut : phGetFileVersionInfoKey cutChild.bytes id 0 varfileBlockName = none := by
    rw [phGetFileVersionInfoKey_eq, if_pos (by decide), childLoop]
    decide
  have hlong : phGetFileVersionInfoKey longChild.bytes id 0 varfileBlockName = some (some 8) := by
    rw [phGetFileVersionInfoKey_eq, if_pos (by decide), childLoop]
    decide
  refine ⟨hcut, hlong, fun h => absurd h.2 (by decide), fun h => ?_⟩
  obtain ⟨result, hresult⟩ := h.answers
  rw [hcut] at hresult
  cases hresult

end SystemInformer.PhLib
