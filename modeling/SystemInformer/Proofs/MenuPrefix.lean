import SystemInformer.PhLib.MenuPrefix
import SystemInformer.Proofs.StringRef
import SystemInformer.Proofs.Wildcards

/-!
# What a menu item shows

What a user sees of a text is the text without its ampersands, but for those that another one
stands before. Both sides of the comparison step over an ampersand before they look at a character,
so they look at the characters that are seen, one after the other.
-/

namespace SystemInformer.PhLib

/-- The text without the ampersands that mark a character. -/
def stripMenuPrefix : List WChar → List WChar
  | [] => []
  | [c] => if c = ampersand then [] else [c]
  | c :: d :: s => if c = ampersand then d :: stripMenuPrefix s else c :: stripMenuPrefix (d :: s)

theorem stripMenuPrefix_eq (s : List WChar) :
    stripMenuPrefix s =
      match skipAmpersand s with
      | [] => []
      | c :: s => c :: stripMenuPrefix s := by
  cases s with
  | nil => rfl
  | cons c s =>
      cases s with
      | nil =>
          by_cases hc : c = ampersand
          · simp [stripMenuPrefix, skipAmpersand, hc]
          · simp [stripMenuPrefix, skipAmpersand, hc]
      | cons d s =>
          by_cases hc : c = ampersand
          · simp [stripMenuPrefix, skipAmpersand, hc]
          · simp [stripMenuPrefix, skipAmpersand, hc]

/-! ## Escaping -/

def doubleAmpersands (s : List WChar) : List WChar :=
  s.flatMap fun c => if c = ampersand then [ampersand, ampersand] else [c]

theorem stripMenuPrefix_doubleAmpersands (s : List WChar) :
    stripMenuPrefix (doubleAmpersands s) = s := by
  induction s with
  | nil => rfl
  | cons c s ih =>
      rw [doubleAmpersands, List.flatMap_cons]
      change stripMenuPrefix (_ ++ doubleAmpersands s) = c :: s
      rw [stripMenuPrefix_eq]
      by_cases hc : c = ampersand
      · simp [skipAmpersand, hc, ih]
      · simp [skipAmpersand, hc, ih]

/-- What the loop has passed is appended, or in the run. -/
structure EscapeRun.Holds (string : List WChar) (s : EscapeRun) (passed : List WChar) : Prop where
  flush : s.flush string = doubleAmpersands passed
  run : ∀ runStart, s.runStart = some runStart → runStart + s.runCount = passed.length

theorem EscapeRun.Holds.step {string : List WChar} {s : EscapeRun} {passed rest : List WChar}
    {c : WChar} (h : s.Holds string passed) (hstring : string = passed ++ c :: rest) :
    (s.step string passed.length c).Holds string (passed ++ [c]) := by
  have hpassed : doubleAmpersands (passed ++ [c]) =
      doubleAmpersands passed ++ if c = ampersand then [ampersand, ampersand] else [c] := by
    simp [doubleAmpersands]
  rw [EscapeRun.step]
  split
  · next hc => exact ⟨by rw [hpassed, if_pos hc, ← h.flush]; rfl, fun _ hno => by cases hno⟩
  · next hc =>
      have hflush := h.flush
      split
      · next runStart hrun =>
          have hlength := h.run runStart hrun
          rw [EscapeRun.flush, hrun] at hflush
          refine ⟨?_, fun _ heq => ?_⟩
          · -- The character behind the run is the one that the loop is at.
            have hnext : string[runStart + s.runCount]? = some c := by
              rw [hlength, hstring]
              simp
            rw [hpassed, if_neg hc, ← hflush, EscapeRun.flush, List.append_assoc]
            simp [List.take_add_one, hnext]
          · rw [← Option.some.inj heq, List.length_append]
            simp only [List.length_singleton]
            omega
      · next hrun =>
          rw [EscapeRun.flush, hrun] at hflush
          refine ⟨?_, fun _ heq => ?_⟩
          · rw [hpassed, if_neg hc, ← hflush, EscapeRun.flush, hstring]
            simp
          · rw [← Option.some.inj heq]
            simp

theorem EscapeRun.loop_holds {string : List WChar} (rest : List WChar) {s : EscapeRun}
    {passed : List WChar} (h : s.Holds string passed) (hstring : string = passed ++ rest) :
    (EscapeRun.loop string s passed.length rest).flush string = doubleAmpersands string := by
  induction rest generalizing s passed with
  | nil =>
      rw [List.append_nil] at hstring
      subst hstring
      exact h.flush
  | cons c rest ih =>
      have hnext := ih (h.step hstring) (by rw [hstring]; simp)
      rw [List.length_append] at hnext
      exact hnext

theorem phEscapeStringForMenuPrefix_eq (string : List WChar) :
    phEscapeStringForMenuPrefix string = doubleAmpersands string :=
  @EscapeRun.loop_holds string string _ [] ⟨rfl, fun _ hno => by cases hno⟩ rfl

/-! ## Comparing -/

variable (phUpcaseUnicodeChar : WChar → WChar) (ignoreCase matchIfPrefix : Bool)

/-- What a comparison that gives 0 says of the two texts. -/
def SameOrPrefix (a b : List WChar) : Prop := if matchIfPrefix then a <+: b else a = b

section

variable {phUpcaseUnicodeChar ignoreCase matchIfPrefix} {a b : List WChar} {c d : WChar}

theorem equalChars_iff : equalChars phUpcaseUnicodeChar ignoreCase c d = true ↔
    foldChar phUpcaseUnicodeChar ignoreCase c = foldChar phUpcaseUnicodeChar ignoreCase d := by
  cases ignoreCase with
  | false => simp [equalChars, foldChar]
  | true => simp [equalChars, foldChar]

theorem sameOrPrefix_nil : SameOrPrefix matchIfPrefix [] b ↔ matchIfPrefix = true ∨ b = [] := by
  cases matchIfPrefix with
  | false => simp [SameOrPrefix, eq_comm]
  | true => simp [SameOrPrefix]

theorem not_sameOrPrefix_cons_nil : ¬ SameOrPrefix matchIfPrefix (c :: a) [] := by
  cases matchIfPrefix with
  | false => simp [SameOrPrefix]
  | true => simp [SameOrPrefix]

theorem sameOrPrefix_cons :
    SameOrPrefix matchIfPrefix (c :: a) (d :: b) ↔ c = d ∧ SameOrPrefix matchIfPrefix a b := by
  cases matchIfPrefix with
  | false => simp [SameOrPrefix]
  | true => simp [SameOrPrefix, List.cons_prefix_cons]

theorem mem_skipAmpersand {s : List WChar} (h : c ∈ skipAmpersand s) : c ∈ s := by
  cases s with
  | nil => exact h
  | cons d s =>
      rw [skipAmpersand] at h
      split at h
      · exact List.mem_cons_of_mem _ h
      · exact h

theorem compareIgnoreMenuPrefix_eq (a b : List WChar) :
    compareIgnoreMenuPrefix phUpcaseUnicodeChar ignoreCase matchIfPrefix a b =
      match skipAmpersand a, skipAmpersand b with
      | [], b => if matchIfPrefix then some 0 else some (0 - ((b.headD 0).toNat : Int))
      | t :: a, u :: b =>
          if equalChars phUpcaseUnicodeChar ignoreCase t u then
            compareIgnoreMenuPrefix phUpcaseUnicodeChar ignoreCase matchIfPrefix a b
          else some (t.toNat - u.toNat)
      | t :: _, [] =>
          if equalChars phUpcaseUnicodeChar ignoreCase t 0 then none
          else some (t.toNat - 0) := by
  rw [compareIgnoreMenuPrefix]
  split <;> simp_all

theorem ne_of_not_equalChars (h : ¬ equalChars phUpcaseUnicodeChar ignoreCase c d = true) :
    (c.toNat : Int) - d.toNat ≠ 0 := by
  intro heq
  have hsame : c = d := UInt16.toNat_inj.mp (by omega)
  exact h (equalChars_iff.mpr (congrArg _ hsame))

theorem toNat_ne_zero (hc : c ≠ 0) : c.toNat ≠ 0 := fun heq => hc (UInt16.toNat_inj.mp heq)

theorem compareIgnoreMenuPrefix_iff (hupcase : ∀ c, phUpcaseUnicodeChar c = 0 ↔ c = 0)
    (ha : 0 ∉ a) (hb : 0 ∉ b) :
    ∃ r, compareIgnoreMenuPrefix phUpcaseUnicodeChar ignoreCase matchIfPrefix a b = some r ∧
      (r = 0 ↔ SameOrPrefix matchIfPrefix
        ((stripMenuPrefix a).map (foldChar phUpcaseUnicodeChar ignoreCase))
        ((stripMenuPrefix b).map (foldChar phUpcaseUnicodeChar ignoreCase))) := by
  induction hlength : a.length using Nat.strong_induction_on generalizing a b with
  | _ n ih =>
      have ha' : ∀ c ∈ skipAmpersand a, c ≠ 0 := fun c hc heq => ha (heq ▸ mem_skipAmpersand hc)
      have hb' : ∀ c ∈ skipAmpersand b, c ≠ 0 := fun c hc heq => hb (heq ▸ mem_skipAmpersand hc)
      have hle := length_skipAmpersand a
      rw [stripMenuPrefix_eq a, stripMenuPrefix_eq b, compareIgnoreMenuPrefix_eq]
      cases hskipa : skipAmpersand a with
      | nil =>
          -- The first text has ended.
          rw [List.map_nil]
          cases matchIfPrefix with
          | true => exact ⟨0, rfl, iff_of_true rfl (sameOrPrefix_nil.mpr (.inl rfl))⟩
          | false =>
              refine ⟨_, rfl, ?_⟩
              rw [sameOrPrefix_nil, or_iff_right Bool.false_ne_true, List.map_eq_nil_iff]
              cases hskipb : skipAmpersand b with
              | nil => exact iff_of_true rfl rfl
              | cons u b' =>
                  have hu := toNat_ne_zero (hb' u (hskipb ▸ List.mem_cons_self))
                  refine iff_of_false (fun heq => hu ?_) (List.cons_ne_nil _ _)
                  rw [List.headD_cons] at heq
                  omega
      | cons t a' =>
          have ht := ha' t (hskipa ▸ List.mem_cons_self)
          rw [List.map_cons]
          cases hskipb : skipAmpersand b with
          | nil =>
              have hequal : ¬ equalChars phUpcaseUnicodeChar ignoreCase t 0 = true := by
                rw [equalChars_terminator hupcase ht]
                exact Bool.false_ne_true
              refine ⟨t.toNat - 0, if_neg hequal, iff_of_false (fun heq => toNat_ne_zero ht ?_)
                not_sameOrPrefix_cons_nil⟩
              omega
          | cons u b' =>
              rw [List.map_cons, sameOrPrefix_cons]
              by_cases hequal : equalChars phUpcaseUnicodeChar ignoreCase t u = true
              · have hshort : a'.length < n := by
                  rw [hskipa, List.length_cons] at hle
                  omega
                obtain ⟨r, hr, hiff⟩ := @ih a'.length hshort a' b'
                  (fun hmem => ha' 0 (hskipa ▸ List.mem_cons_of_mem _ hmem) rfl)
                  (fun hmem => hb' 0 (hskipb ▸ List.mem_cons_of_mem _ hmem) rfl) rfl
                refine ⟨r, (if_pos hequal).trans hr, hiff.trans ?_⟩
                exact (and_iff_right (equalChars_iff.mp hequal)).symm
              · refine ⟨t.toNat - u.toNat, if_neg hequal,
                  iff_of_false (ne_of_not_equalChars hequal) fun hsame => hequal ?_⟩
                exact equalChars_iff.mpr hsame.1

end

/-- The comparison gives 0 exactly for texts that show the same, or the beginning of the other;
and an escaped text shows the text. -/
theorem phMenuPrefix_ignores (hupcase : ∀ c, phUpcaseUnicodeChar c = 0 ↔ c = 0) :
    (∀ a b : List WChar, 0 ∉ a → 0 ∉ b →
      ∃ r, phCompareUnicodeStringZIgnoreMenuPrefix phUpcaseUnicodeChar ignoreCase matchIfPrefix
          (some a) (some b) = some r ∧
        (r = 0 ↔ SameOrPrefix matchIfPrefix
          ((stripMenuPrefix a).map (foldChar phUpcaseUnicodeChar ignoreCase))
          ((stripMenuPrefix b).map (foldChar phUpcaseUnicodeChar ignoreCase)))) ∧
      ∀ s : List WChar, stripMenuPrefix (phEscapeStringForMenuPrefix s) = s := by
  refine ⟨fun a b ha hb => compareIgnoreMenuPrefix_iff hupcase ha hb, fun s => ?_⟩
  rw [phEscapeStringForMenuPrefix_eq]
  exact stripMenuPrefix_doubleAmpersands s

/-- `&&AB&` and `&&&ab`, without case. -/
theorem phMenuPrefix_ignores_letters :
    ∃ r, phCompareUnicodeStringZIgnoreMenuPrefix upcaseLetter true false
        (some [0x26, 0x26, 0x41, 0x42, 0x26]) (some [0x26, 0x26, 0x26, 0x61, 0x62]) = some r ∧
      (r = 0 ↔ SameOrPrefix false
        ((stripMenuPrefix [0x26, 0x26, 0x41, 0x42, 0x26]).map (foldChar upcaseLetter true))
        ((stripMenuPrefix [0x26, 0x26, 0x26, 0x61, 0x62]).map (foldChar upcaseLetter true))) :=
  (phMenuPrefix_ignores upcaseLetter true false upcaseLetter_eq_zero_iff).1 _ _ (by decide)
    (by decide)

end SystemInformer.PhLib
