import SystemInformer.Lib.Trimming
import SystemInformer.PhLib.CharSets

/-!
# What `PhTrimStringRef` cuts off

The table says of each low byte whether a character of the set has it, and whether all characters
of the set are below 256 (`charSetTable_table`, `charSetTable_complete`). If they are, a character
is kept or cut off by its low byte alone, and one from 256 on that shares its low byte with the set
is cut off although it is not in it (`Strays`). The loops stop at the first character that they do
not cut off, so the result is right as long as the first and the last character outside the set do
not stray.
-/

namespace SystemInformer.PhLib

open Trimming

variable {charSet chars : List WChar} {c : WChar} {fold : WChar → WChar}

/-! ## The table -/

theorem charSetTable_append (fold : WChar → WChar) (charSet : List WChar) (c : WChar) :
    charSetTable fold (charSet ++ [c]) =
      ⟨Function.update (charSetTable fold charSet).table (lowByte (fold c)) true,
        if 256 ≤ (fold c).toNat then false else (charSetTable fold charSet).complete⟩ := by
  rw [charSetTable, List.foldl_append]
  rfl

theorem charSetTable_table (fold : WChar → WChar) (charSet : List WChar) (b : UInt8) :
    (charSetTable fold charSet).table b = true ↔ ∃ m ∈ charSet, lowByte (fold m) = b := by
  induction charSet using List.reverseRecOn with
  | nil => exact iff_of_false Bool.false_ne_true fun ⟨m, hm, _⟩ => List.not_mem_nil hm
  | append_singleton charSet c ih =>
      rw [charSetTable_append]
      by_cases hb : b = lowByte (fold c)
      · subst hb
        exact iff_of_true (Function.update_self _ _ _) ⟨c, by simp, rfl⟩
      · show Function.update (charSetTable fold charSet).table (lowByte (fold c)) true b = true ↔ _
        rw [Function.update_of_ne hb, ih]
        constructor
        · exact fun ⟨m, hm, heq⟩ => ⟨m, List.mem_append_left _ hm, heq⟩
        · rintro ⟨m, hm, heq⟩
          rcases List.mem_append.mp hm with hm | hm
          · exact ⟨m, hm, heq⟩
          · exact absurd (List.mem_singleton.mp hm ▸ heq).symm hb

theorem charSetTable_complete (fold : WChar → WChar) (charSet : List WChar) :
    (charSetTable fold charSet).complete = true ↔ ∀ m ∈ charSet, (fold m).toNat < 256 := by
  induction charSet using List.reverseRecOn with
  | nil => exact iff_of_true rfl fun m hm => absurd hm List.not_mem_nil
  | append_singleton charSet c ih =>
      rw [charSetTable_append]
      show (if 256 ≤ (fold c).toNat then false else _) = true ↔ _
      split
      · next hc =>
          exact iff_of_false Bool.false_ne_true fun h => absurd (h c (by simp)) (Nat.not_lt.mpr hc)
      · next hc =>
          rw [ih]
          constructor
          · intro h m hm
            rcases List.mem_append.mp hm with hm | hm
            · exact h m hm
            · rw [List.mem_singleton.mp hm]
              exact Nat.not_le.mp hc
          · exact fun h m hm => h m (List.mem_append_left _ hm)

theorem lowByte_eq_iff {m c : WChar} : lowByte m = lowByte c ↔ m.toNat % 256 = c.toNat % 256 := by
  rw [lowByte, lowByte, ← UInt8.toNat_inj, UInt8.toNat_ofNat', UInt8.toNat_ofNat']

/-- The character is outside the set, but the table does not tell. -/
def Strays (charSet : List WChar) (c : WChar) : Prop :=
  charSet.length ≠ 1 ∧ 256 ≤ c.toNat ∧ (∀ m ∈ charSet, m.toNat < 256) ∧
    ∃ m ∈ charSet, m.toNat = c.toNat % 256

def cutsOff (charSet : List WChar) (c : WChar) : Bool :=
  match charSet with
  | [m] => c == m
  | charSet => trimsChar charSet c

theorem trimsChar_iff : trimsChar charSet c = true ↔ c ∈ charSet ∨
    (256 ≤ c.toNat ∧ (∀ m ∈ charSet, m.toNat < 256) ∧ ∃ m ∈ charSet, m.toNat = c.toNat % 256) := by
  have htable := charSetTable_table id charSet (lowByte c)
  have hcomplete := charSetTable_complete id charSet
  simp only [id_eq, lowByte_eq_iff] at htable hcomplete
  have hany : charSet.any (· == c) = true ↔ c ∈ charSet := by
    rw [List.any_eq_true]
    exact ⟨fun ⟨m, hm, heq⟩ => beq_iff_eq.mp heq ▸ hm, fun hm => ⟨c, hm, beq_self_eq_true c⟩⟩
  rw [trimsChar]
  cases hlow : (charSetTable id charSet).table (lowByte c) with
  | false =>
      have hno : ¬ ∃ m ∈ charSet, m.toNat % 256 = c.toNat % 256 := fun h =>
        Bool.false_ne_true (hlow.symm.trans (htable.mpr h))
      refine iff_of_false Bool.false_ne_true ?_
      rintro (hm | ⟨-, -, m, hm, heq⟩)
      · exact hno ⟨c, hm, rfl⟩
      · exact hno ⟨m, hm, by rw [heq, Nat.mod_mod]⟩
  | true =>
      obtain ⟨m, hm, hmod⟩ := htable.mp hlow
      cases hall : (charSetTable id charSet).complete with
      | false =>
          have hlarge : ¬ ∀ m ∈ charSet, m.toNat < 256 := fun h =>
            Bool.false_ne_true (hall.symm.trans (hcomplete.mpr h))
          show charSet.any (· == c) = true ↔ _
          rw [hany]
          exact ⟨.inl, fun h => h.resolve_right fun hs => hlarge hs.2.1⟩
      | true =>
          have hsmall := hcomplete.mp hall
          refine iff_of_true rfl ?_
          have hlt := hsmall m hm
          rcases Nat.lt_or_ge c.toNat 256 with hc | hc
          · left
            have heq : m = c := UInt16.toNat_inj.mp (by omega)
            exact heq ▸ hm
          · exact .inr ⟨hc, hsmall, m, hm, by omega⟩

theorem cutsOff_iff : cutsOff charSet c = true ↔ c ∈ charSet ∨ Strays charSet c := by
  have hmany : ∀ charSet : List WChar, charSet.length ≠ 1 →
      (trimsChar charSet c = true ↔ c ∈ charSet ∨ Strays charSet c) := by
    intro charSet hlength
    rw [trimsChar_iff, Strays, and_iff_right hlength]
  match charSet with
  | [] => exact hmany [] (by decide)
  | [m] =>
      rw [cutsOff, beq_iff_eq, List.mem_singleton]
      exact ⟨.inl, fun h => h.resolve_right fun hs => hs.1 rfl⟩
  | _ :: _ :: rest => exact hmany _ (by simp)

/-! ## The loops -/

theorem trimCountStart_eq (keeps : WChar → Bool) (string : List WChar) : ∀ count s trimCount,
    count + s = string.length →
    trimCountStart keeps string count s trimCount =
      trimCount + ((string.drop s).takeWhile keeps).length := by
  intro count
  induction count with
  | zero =>
      intro s trimCount hs
      rw [trimCountStart, List.drop_eq_nil_of_le (by omega)]
      rfl
  | succ count ih =>
      intro s trimCount hs
      have hlt : s < string.length := by omega
      rw [trimCountStart, List.drop_eq_getElem_cons hlt, List.getD_eq_getElem _ _ hlt]
      cases hkeeps : keeps string[s] with
      | false =>
          rw [List.takeWhile_cons_of_neg (by rw [hkeeps]; exact Bool.false_ne_true)]
          rfl
      | true =>
          rw [List.takeWhile_cons_of_pos hkeeps, List.length_cons]
          show trimCountStart keeps string count (s + 1) (trimCount + 1) = _
          rw [ih (s + 1) (trimCount + 1) (by omega)]
          omega

theorem trimCountEnd_eq (keeps : WChar → Bool) (string : List WChar) : ∀ count trimCount,
    count ≤ string.length →
    trimCountEnd keeps string count (count - 1) trimCount =
      trimCount + ((string.take count).rtakeWhile keeps).length := by
  intro count
  induction count with
  | zero => exact fun trimCount _ => rfl
  | succ count ih =>
      intro trimCount hcount
      have hlt : count < string.length := hcount
      rw [trimCountEnd, Nat.add_sub_cancel, List.take_succ_eq_append_getElem hlt,
        List.getD_eq_getElem _ _ hlt]
      cases hkeeps : keeps string[count] with
      | false =>
          rw [List.rtakeWhile_concat_neg _ _ _ (by rw [hkeeps]; exact Bool.false_ne_true)]
          rfl
      | true =>
          rw [List.rtakeWhile_concat_pos _ _ _ hkeeps, List.length_append, List.length_singleton]
          show trimCountEnd keeps string count (count - 1) (trimCount + 1) = _
          rw [ih (trimCount + 1) (by omega)]
          omega

/-- What is expected: the longest prefix and the longest suffix of the rest in which all characters
pass the test. -/
structure CutsExactly (p : WChar → Bool) (chars : List WChar) (endOnly startOnly : Bool)
    (r : TrimmedRef) : Prop where
  start : r.skipped = if endOnly then 0 else (chars.takeWhile p).length
  rest : r.length = if startOnly then (chars.drop r.skipped).length
    else ((chars.drop r.skipped).rdropWhile p).length

theorem trimEnds_cuts (keeps : WChar → Bool) (endOnly startOnly : Bool) (chars : List WChar) :
    CutsExactly keeps chars endOnly startOnly (trimEnds keeps endOnly startOnly chars) := by
  constructor
  · show (if endOnly then 0 else _) = _
    rw [trimCountStart_eq _ _ _ _ _ (Nat.add_zero _), List.drop_zero, Nat.zero_add]
  · rw [trimEnds]
    dsimp only
    generalize chars.drop _ = rest
    split
    · exact Nat.sub_zero _
    · rw [trimCountEnd_eq _ _ _ _ le_rfl, List.take_length, Nat.zero_add]
      have hsplit := congrArg List.length (List.rdropWhile_append_rtakeWhile (p := keeps) (l := rest))
      rw [List.length_append] at hsplit
      omega

theorem phTrimStringRef_cuts (string : PhStringRef) (charSet : List WChar)
    (endOnly startOnly : Bool) :
    CutsExactly (cutsOff charSet) string.chars endOnly startOnly
      (phTrimStringRef string charSet endOnly startOnly) := by
  have hnothing : string.chars.takeWhile (cutsOff charSet) = [] →
      string.chars.rdropWhile (cutsOff charSet) = string.chars →
      CutsExactly (cutsOff charSet) string.chars endOnly startOnly ⟨0, string.chars.length⟩ := by
    intro hstart hend
    constructor
    · rw [hstart]
      exact (ite_self _).symm
    · rw [List.drop_zero, hend]
      exact (ite_self _).symm
  rw [phTrimStringRef.eq_def]
  split
  · next hempty =>
      have hcases : string.chars = [] ∨ charSet = [] := by
        rcases hempty with hbuffer | hempty
        · exact .inl (string.null_chars hbuffer)
        · exact hempty
      rcases hcases with hchars | rfl
      · exact hnothing (by rw [hchars]; rfl) (by rw [hchars]; rfl)
      · have hno : ∀ c, cutsOff [] c = false := fun c => Bool.eq_false_iff.mpr fun h => by
          rcases cutsOff_iff.mp h with hm | hs
          · exact List.not_mem_nil hm
          · obtain ⟨m, hm, -⟩ := hs.2.2.2
            exact List.not_mem_nil hm
        refine hnothing ?_ (rdropWhile_eq_self fun a _ => hno a)
        exact List.takeWhile_eq_nil_iff.mpr fun _ => by rw [hno]; exact Bool.false_ne_true
  · match charSet with
    | [] => next h => exact absurd (.inr (.inr rfl)) h
    | [c] => exact trimEnds_cuts _ _ _ _
    | _ :: _ :: _ => exact trimEnds_cuts _ _ _ _

/-! ## The result -/

/-- The first character outside the set where the start is trimmed, and the last one where the end
is, do not stray. -/
structure EndsTold (charSet chars : List WChar) (endOnly startOnly : Bool) : Prop where
  start : endOnly = false → ∀ c ∈ chars.find? (· ∉ charSet), ¬ Strays charSet c
  rest : startOnly = false → ∀ c ∈ chars.reverse.find? (· ∉ charSet), ¬ Strays charSet c

/-- Exactly then the longest prefix and the longest suffix of characters of the set are cut off. -/
theorem phTrimStringRef_exact_iff (string : PhStringRef) (charSet : List WChar)
    (endOnly startOnly : Bool) :
    CutsExactly (fun c => decide (c ∈ charSet)) string.chars endOnly startOnly
        (phTrimStringRef string charSet endOnly startOnly) ↔
      EndsTold charSet string.chars endOnly startOnly := by
  have hcuts := phTrimStringRef_cuts string charSet endOnly startOnly
  have hsub : ∀ c, decide (c ∈ charSet) = true → cutsOff charSet c = true :=
    fun c hc => cutsOff_iff.mpr (.inl (of_decide_eq_true hc))
  have htold : ∀ {c} {l : List WChar}, c ∈ l.find? (fun c => !decide (c ∈ charSet)) →
      (cutsOff charSet c = false ↔ ¬ Strays charSet c) := by
    intro c l hc
    have hout : c ∉ charSet := by simpa using List.find?_some (Option.mem_def.mp hc)
    rw [Bool.eq_false_iff, ne_eq, cutsOff_iff, or_iff_right hout]
  have hfind : ∀ l : List WChar,
      l.find? (fun c => !decide (c ∈ charSet)) = l.find? (· ∉ charSet) :=
    fun l => congrArg (l.find? ·) (funext fun c => (decide_not ..).symm)
  have hstart : ∀ l : List WChar,
      (l.takeWhile (cutsOff charSet)).length =
          (l.takeWhile fun c => decide (c ∈ charSet)).length ↔
        ∀ c ∈ l.find? (· ∉ charSet), ¬ Strays charSet c := by
    intro l
    rw [takeWhile_length_eq_iff hsub, ← hfind]
    exact forall₂_congr fun c hc => htold hc
  have hrest : ∀ l : List WChar,
      (l.rdropWhile (cutsOff charSet)).length =
          (l.rdropWhile fun c => decide (c ∈ charSet)).length ↔
        ∀ c ∈ l.reverse.find? (· ∉ charSet), ¬ Strays charSet c := by
    intro l
    rw [rdropWhile_length_eq_iff hsub, ← hfind]
    exact forall₂_congr fun c hc => htold hc
  generalize phTrimStringRef string charSet endOnly startOnly = r at hcuts ⊢
  generalize string.chars = chars at hcuts ⊢
  have hlast : r.skipped = (if endOnly then 0 else (chars.takeWhile fun c => decide (c ∈ charSet)).length) →
      (chars.drop r.skipped).reverse.find? (· ∉ charSet) = chars.reverse.find? (· ∉ charSet) := by
    intro hskip
    rw [hskip]
    cases endOnly with
    | true => exact congrArg (fun l => (List.reverse l).find? _) List.drop_zero
    | false =>
        rw [if_neg Bool.false_ne_true, drop_length_takeWhile, ← hfind, ← hfind]
        exact find?_reverse_dropWhile _ _
  constructor
  · rintro ⟨hskip, hlength⟩
    refine ⟨fun hend => ?_, fun hstartOnly => ?_⟩
    · rw [hcuts.start, hend] at hskip
      exact (hstart chars).mp hskip
    · rw [← hlast hskip, ← hrest]
      rw [hcuts.rest, hstartOnly] at hlength
      exact hlength
  · rintro ⟨hfirst, hend⟩
    have hskip : r.skipped =
        if endOnly then 0 else (chars.takeWhile fun c => decide (c ∈ charSet)).length := by
      rw [hcuts.start]
      cases endOnly with
      | true => rfl
      | false => exact (hstart chars).mpr (hfirst rfl)
    refine ⟨hskip, ?_⟩
    rw [hcuts.rest]
    cases startOnly with
    | true => rfl
    | false =>
        refine (hrest _).mpr ?_
        rw [hlast hskip]
        exact hend rfl

/-- `U+0161` shares its low byte with `a`. -/
theorem phTrimStringRef_strays :
    ¬ CutsExactly (fun c => decide (c ∈ ([0x61, 0x62] : List WChar))) [0x161] false false
      (phTrimStringRef (.ofChars [0x161]) [0x61, 0x62] false false) := by
  intro h
  exact absurd h.start (by decide)

end SystemInformer.PhLib
