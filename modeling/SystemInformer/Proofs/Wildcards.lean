import SystemInformer.PhLib.Wildcards
import SystemInformer.Lib.Glob

/-!
# Wildcards match the language of the pattern

The walk from one start to the next takes in a plain piece of the pattern. What a new start still
has to do is what the pattern from the last star on asks of the rest of the string, and the
general facts about stars say that nothing is lost by never going back to a star before it.
-/

namespace SystemInformer.PhLib

open Glob

variable (phUpcaseUnicodeChar : WChar → WChar) (ignoreCase : Bool)

def wildcardToken (c : WChar) : Token WChar :=
  if c = asterisk then .star else if c = questionMark then .one else .char c

def WildcardsMatch (pattern string : List WChar) : Prop :=
  Matches (fun s p => equalChars phUpcaseUnicodeChar ignoreCase s p = true)
    (pattern.map wildcardToken) string

section

variable {phUpcaseUnicodeChar ignoreCase} {p q pattern s t string : List WChar}

theorem equalChars_terminator (hupcase : ∀ c, phUpcaseUnicodeChar c = 0 ↔ c = 0) {c : WChar}
    (hc : c ≠ 0) : equalChars phUpcaseUnicodeChar ignoreCase c 0 = false := by
  have hzero := (hupcase 0).mpr rfl
  cases ignoreCase with
  | false => simpa [equalChars] using hc
  | true => simpa [equalChars, hzero, hupcase] using hc

/-- What the loop has found when it is left: a plain piece that matches, or a character that does
not fit. -/
def WildcardsExit.Meets (phUpcaseUnicodeChar : WChar → WChar) (ignoreCase : Bool)
    (s p : List WChar) : WildcardsExit → Prop
  | .ended p' => ∃ q, p = q ++ p' ∧ Plain (q.map wildcardToken) ∧
      WildcardsMatch phUpcaseUnicodeChar ignoreCase q s
  | .star s' p' => ∃ q t, p = q ++ asterisk :: p' ∧ s = t ++ s' ∧ Plain (q.map wildcardToken) ∧
      WildcardsMatch phUpcaseUnicodeChar ignoreCase q t
  | .starCheck => ¬ WildcardsMatch phUpcaseUnicodeChar ignoreCase p s
  | .overrun => False

theorem WildcardsExit.Meets.cons {exit : WildcardsExit} {c d : WChar}
    (h : exit.Meets phUpcaseUnicodeChar ignoreCase s p) (hstar : d ≠ asterisk)
    (hmatches : ∀ p s, WildcardsMatch phUpcaseUnicodeChar ignoreCase (d :: p) (c :: s) ↔
      WildcardsMatch phUpcaseUnicodeChar ignoreCase p s) :
    exit.Meets phUpcaseUnicodeChar ignoreCase (c :: s) (d :: p) := by
  have hplain : ∀ q : List WChar, Plain (q.map wildcardToken) →
      Plain ((d :: q).map wildcardToken) := by
    intro q hq x hx
    rw [List.map_cons, List.mem_cons] at hx
    rcases hx with rfl | hx
    · rw [wildcardToken, if_neg hstar]
      split <;> simp
    · exact hq x hx
  cases exit with
  | ended p' =>
      obtain ⟨q, rfl, hq, h⟩ := h
      exact ⟨d :: q, rfl, hplain q hq, (hmatches q s).mpr h⟩
  | star s' p' =>
      obtain ⟨q, t, rfl, rfl, hq, h⟩ := h
      exact ⟨d :: q, c :: t, rfl, rfl, hplain q hq, (hmatches q t).mpr h⟩
  | starCheck => exact fun hmatch => h ((hmatches p s).mp hmatch)
  | overrun => exact h

theorem wildcardsLoop_meets (hupcase : ∀ c, phUpcaseUnicodeChar c = 0 ↔ c = 0) (hs : 0 ∉ s) :
    (wildcardsLoop phUpcaseUnicodeChar ignoreCase s p).Meets phUpcaseUnicodeChar ignoreCase s p := by
  induction s, p using wildcardsLoop.induct phUpcaseUnicodeChar ignoreCase with
  | case1 p => exact ⟨[], rfl, fun x hx => absurd hx List.not_mem_nil, .nil⟩
  | case2 c s hc =>
      rw [equalChars_terminator hupcase (fun heq => hs (heq ▸ List.mem_cons_self))] at hc
      cases hc
  | case3 c s hc =>
      rw [wildcardsLoop, if_neg hc]
      intro hmatch
      exact List.cons_ne_nil _ _ (matches_nil.mp hmatch)
  | case4 c s p ih =>
      rw [wildcardsLoop, if_pos rfl]
      refine (ih fun hmem => hs (List.mem_cons_of_mem _ hmem)).cons (by decide) fun p s => ?_
      simp [WildcardsMatch, wildcardToken, questionMark, asterisk]
  | case5 c s p hone =>
      rw [wildcardsLoop, if_neg hone, if_pos rfl]
      exact ⟨[], [], rfl, rfl, fun x hx => absurd hx List.not_mem_nil, .nil⟩
  | case6 c s d p hone hstar hequal ih =>
      rw [wildcardsLoop, if_neg hone, if_neg hstar, if_pos hequal]
      refine (ih fun hmem => hs (List.mem_cons_of_mem _ hmem)).cons hstar fun p s => ?_
      simp [WildcardsMatch, wildcardToken, hone, hstar, hequal]
  | case7 c s d p hone hstar hequal =>
      rw [wildcardsLoop, if_neg hone, if_neg hstar, if_neg hequal]
      intro hmatch
      simp [WildcardsMatch, wildcardToken, hone, hstar, hequal] at hmatch

theorem wildcardsLoop_exit {exit : WildcardsExit}
    (hupcase : ∀ c, phUpcaseUnicodeChar c = 0 ↔ c = 0) (hs : 0 ∉ s)
    (hloop : wildcardsLoop phUpcaseUnicodeChar ignoreCase s p = exit) :
    exit.Meets phUpcaseUnicodeChar ignoreCase s p := hloop ▸ wildcardsLoop_meets hupcase hs

theorem wildcardsMatch_skipStars (p : List WChar) :
    WildcardsMatch phUpcaseUnicodeChar ignoreCase (asterisk :: p) s ↔
      WildcardsMatch phUpcaseUnicodeChar ignoreCase (asterisk :: skipStars p) s := by
  induction p with
  | nil => rfl
  | cons d p ih =>
      by_cases hd : d = asterisk
      · subst hd
        have hskip : skipStars (asterisk :: p) = skipStars p := by simp [skipStars]
        rw [hskip, ← ih]
        exact matches_star_star
      · have hskip : skipStars (d :: p) = d :: p := by simp [skipStars, hd]
        rw [hskip]

theorem skipStars_eq_nil_iff (p : List WChar) :
    skipStars p = [] ↔ WildcardsMatch phUpcaseUnicodeChar ignoreCase p [] := by
  induction p with
  | nil => exact iff_of_true rfl .nil
  | cons d p ih =>
      by_cases hd : d = asterisk
      · subst hd
        have hskip : skipStars (asterisk :: p) = skipStars p := by simp [skipStars]
        rw [hskip, ih]
        exact matches_star_nil.symm
      · have hskip : skipStars (d :: p) = d :: p := by simp [skipStars, hd]
        rw [hskip]
        refine iff_of_false (List.cons_ne_nil _ _) fun hmatch => ?_
        by_cases hone : d = questionMark
        · simp [WildcardsMatch, wildcardToken, hone, questionMark, asterisk] at hmatch
        · simp [WildcardsMatch, wildcardToken, hone, hd] at hmatch

/-- The language of what is left after a start: if a star was passed, the rest may stand behind any
text. -/
def RestMatches (phUpcaseUnicodeChar : WChar → WChar) (ignoreCase : Bool) (pattern : List WChar)
    (star : Bool) (string : List WChar) : Prop :=
  WildcardsMatch phUpcaseUnicodeChar ignoreCase (if star then asterisk :: pattern else pattern)
    string

theorem restMatches_ended (star : Bool) (hq : Plain (q.map wildcardToken))
    (hmatch : WildcardsMatch phUpcaseUnicodeChar ignoreCase q t) :
    RestMatches phUpcaseUnicodeChar ignoreCase (q ++ p) star t ↔
      WildcardsMatch phUpcaseUnicodeChar ignoreCase p [] := by
  cases star with
  | false =>
      have hrest := matches_plain_rest (s := []) (p := p.map wildcardToken) hq hmatch
      rw [List.append_nil, ← List.map_append] at hrest
      exact hrest
  | true =>
      have hrest := matches_star_plain_end (r := p.map wildcardToken) hq hmatch
      rw [← List.map_append] at hrest
      exact hrest

theorem restMatches_star (star : Bool) (hq : Plain (q.map wildcardToken))
    (hmatch : WildcardsMatch phUpcaseUnicodeChar ignoreCase q t) :
    RestMatches phUpcaseUnicodeChar ignoreCase (q ++ asterisk :: p) star (t ++ s) ↔
      RestMatches phUpcaseUnicodeChar ignoreCase (skipStars p) true s := by
  have hskip := @wildcardsMatch_skipStars phUpcaseUnicodeChar ignoreCase s p
  refine Iff.trans ?_ hskip
  cases star with
  | false =>
      have hrest := matches_plain_rest (s := s) (p := (asterisk :: p).map wildcardToken) hq hmatch
      rw [← List.map_append] at hrest
      exact hrest
  | true =>
      have hrest := matches_star_plain_star (s := s) (p := p.map wildcardToken) hq hmatch
      have htokens : .star :: (q.map wildcardToken ++ .star :: p.map wildcardToken) =
          (asterisk :: (q ++ asterisk :: p)).map wildcardToken := by
        simp [wildcardToken]
      rw [htokens] at hrest
      exact hrest

theorem wildcardsLoopStart_eq (pattern string : List WChar) (star : Bool) :
    wildcardsLoopStart phUpcaseUnicodeChar ignoreCase pattern string star =
      match wildcardsLoop phUpcaseUnicodeChar ignoreCase string pattern with
      | .ended p => some (skipStars p = [])
      | .star s p =>
          if skipStars p = [] then some true
          else wildcardsLoopStart phUpcaseUnicodeChar ignoreCase (skipStars p) s true
      | .starCheck =>
          if star then
            wildcardsLoopStart phUpcaseUnicodeChar ignoreCase pattern string.tail star
          else some false
      | .overrun => none := by
  cases string with
  | nil =>
      rw [wildcardsLoopStart]
      simp only [wildcardsLoop]
  | cons c string =>
      rw [wildcardsLoopStart]
      split <;> simp_all

theorem wildcardsLoopStart_matches (hupcase : ∀ c, phUpcaseUnicodeChar c = 0 ↔ c = 0)
    (hstring : 0 ∉ string) (star : Bool) :
    ∃ b, wildcardsLoopStart phUpcaseUnicodeChar ignoreCase pattern string star = some b ∧
      (b = true ↔ RestMatches phUpcaseUnicodeChar ignoreCase pattern star string) := by
  induction pattern, string, star using
      wildcardsLoopStart.induct phUpcaseUnicodeChar ignoreCase with
  | case1 pattern string star p hloop =>
      obtain ⟨q, rfl, hq, hmatch⟩ := wildcardsLoop_exit hupcase hstring hloop
      refine ⟨decide (skipStars p = []), ?_, ?_⟩
      · rw [wildcardsLoopStart_eq, hloop]
      · rw [restMatches_ended star hq hmatch, decide_eq_true_iff]
        exact skipStars_eq_nil_iff p
  | case2 pattern string star s p hloop hlt hskip =>
      obtain ⟨q, t, rfl, rfl, hq, hmatch⟩ := wildcardsLoop_exit hupcase hstring hloop
      refine ⟨true, ?_, iff_of_true rfl ?_⟩
      · rw [wildcardsLoopStart_eq, hloop]
        exact if_pos hskip
      · rw [restMatches_star star hq hmatch, hskip]
        exact matches_star_last
  | case3 pattern string star s p hloop hlt hskip ih =>
      obtain ⟨q, t, rfl, rfl, hq, hmatch⟩ := wildcardsLoop_exit hupcase hstring hloop
      have hrest : 0 ∉ s := fun hmem => hstring (List.mem_append_right _ hmem)
      obtain ⟨b, hb, hiff⟩ := ih hrest
      refine ⟨b, ?_, hiff.trans (restMatches_star star hq hmatch).symm⟩
      rw [wildcardsLoopStart_eq, hloop]
      exact (if_neg hskip).trans hb
  | case4 pattern c string hloop ih =>
      have hmeets := wildcardsLoop_exit hupcase hstring hloop
      have hrest : 0 ∉ string := fun hmem => hstring (List.mem_cons_of_mem _ hmem)
      obtain ⟨b, hb, hiff⟩ := ih hrest
      refine ⟨b, ?_, hiff.trans ?_⟩
      · rw [wildcardsLoopStart_eq, hloop]
        exact hb
      · exact (matches_star_cons.trans (or_iff_right hmeets)).symm
  | case5 pattern star c string hloop hstar =>
      have hmeets := wildcardsLoop_exit hupcase hstring hloop
      rw [Bool.not_eq_true] at hstar
      subst hstar
      refine ⟨false, ?_, iff_of_false Bool.false_ne_true hmeets⟩
      rw [wildcardsLoopStart_eq, hloop]
      rfl
  | case6 pattern string star hloop =>
      exact (wildcardsLoop_exit hupcase hstring hloop).elim

end

/-- A string matches a pattern exactly if it is one of the language of the pattern, and the
matcher always finds out. -/
theorem phMatchWildcards_matches (hupcase : ∀ c, phUpcaseUnicodeChar c = 0 ↔ c = 0)
    (pattern string : List WChar) (hstring : 0 ∉ string) :
    ∃ b, phMatchWildcards phUpcaseUnicodeChar ignoreCase pattern string = some b ∧
      (b = true ↔ WildcardsMatch phUpcaseUnicodeChar ignoreCase pattern string) :=
  wildcardsLoopStart_matches hupcase hstring false

/-- What the system's table does to the letters of ASCII. -/
def upcaseLetter (c : WChar) : WChar := if 0x61 ≤ c ∧ c ≤ 0x7a then c - 0x20 else c

theorem upcaseLetter_eq_zero_iff (c : WChar) : upcaseLetter c = 0 ↔ c = 0 := by
  rw [upcaseLetter]
  split
  · next h =>
      rw [UInt16.le_iff_toNat_le] at h
      have hlow : (0x61 : WChar).toNat = 0x61 := rfl
      have hsub : (c - 0x20).toNat = c.toNat - 0x20 :=
        UInt16.toNat_sub_of_le c 0x20 (UInt16.le_iff_toNat_le.mpr (by
          show 0x20 ≤ c.toNat
          omega))
      have hzero : (0 : WChar).toNat = 0 := rfl
      rw [← UInt16.toNat_inj, ← UInt16.toNat_inj, hsub, hzero]
      omega
  · rfl

/-- The pattern is `a*B`, the string `AxxB`. -/
theorem phMatchWildcards_matches_letters :
    ∃ b, phMatchWildcards upcaseLetter true [0x61, 0x2a, 0x42] [0x41, 0x78, 0x78, 0x42] = some b ∧
      (b = true ↔ WildcardsMatch upcaseLetter true [0x61, 0x2a, 0x42] [0x41, 0x78, 0x78, 0x42]) :=
  phMatchWildcards_matches upcaseLetter true upcaseLetter_eq_zero_iff _ _ (by decide)

end SystemInformer.PhLib
