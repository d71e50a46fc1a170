import SystemInformer.Proofs.StringRef
import SystemInformer.Proofs.StringTrim

/-!
# Where `PhSplitStringRefEx` splits

In the mode for character sets the test of a character is right whatever the flags are
(`splitsAtChar_eq`): the table is only relied on for characters below 256 and a complete set, and
anything else is looked for in the set. The loops find the first or the last character that passes.
A set of one character is left to the two searches for a character, so the split is wrong exactly
when such a search is left to the C runtime and returns a wrong index.
-/

namespace SystemInformer.PhLib

open Indices

variable {processor : Processor} {phUpcaseUnicodeChar : WChar → WChar} {flags : SplitFlags}
  {charSet : List WChar} {c : WChar}

def isSeparator (phUpcaseUnicodeChar : WChar → WChar) (flags : SplitFlags) (charSet : List WChar)
    (c : WChar) : Bool :=
  (charSet.any fun m =>
    splitFold phUpcaseUnicodeChar flags m == splitFold phUpcaseUnicodeChar flags c) ^^
      flags.complementCharSet

/-- With the flag, the set is uppercase. -/
def IsUppercase (phUpcaseUnicodeChar : WChar → WChar) (flags : SplitFlags)
    (charSet : List WChar) : Prop :=
  flags.charSetIsUppercase = true → ∀ m ∈ charSet, phUpcaseUnicodeChar m = m

theorem any_congr_mem {l : List WChar} {p q : WChar → Bool} (h : ∀ m ∈ l, p m = q m) :
    l.any p = l.any q := by
  rw [Bool.eq_iff_iff, List.any_eq_true, List.any_eq_true]
  constructor
  · exact fun ⟨m, hm, hp⟩ => ⟨m, hm, h m hm ▸ hp⟩
  · exact fun ⟨m, hm, hq⟩ => ⟨m, hm, (h m hm).symm ▸ hq⟩

theorem inCharSet_eq (h : IsUppercase phUpcaseUnicodeChar flags charSet) (c : WChar) :
    inCharSet phUpcaseUnicodeChar flags charSet c =
      charSet.any fun m => splitFold phUpcaseUnicodeChar flags m == c := by
  rw [inCharSet]
  cases hci : flags.caseInsensitive with
  | false =>
      refine any_congr_mem fun m _ => ?_
      rw [splitFold, hci]
      rfl
  | true =>
      cases hupper : flags.charSetIsUppercase with
      | false =>
          refine any_congr_mem fun m _ => ?_
          rw [splitFold, hci]
          rfl
      | true =>
          refine any_congr_mem fun m hm => ?_
          rw [splitFold, hci, if_pos rfl, h hupper m hm]

theorem table_of_inSet {fold : WChar → WChar}
    (h : charSet.any (fun m => fold m == c) = true) :
    (charSetTable fold charSet).table (lowByte c) = true := by
  obtain ⟨m, hm, heq⟩ := List.any_eq_true.mp h
  exact (charSetTable_table fold charSet _).mpr ⟨m, hm, by rw [beq_iff_eq.mp heq]⟩

theorem table_of_small {fold : WChar → WChar} (hc : c.toNat < 256)
    (hcomplete : (charSetTable fold charSet).complete = true) :
    (charSetTable fold charSet).table (lowByte c) = charSet.any fun m => fold m == c := by
  rw [Bool.eq_iff_iff]
  refine ⟨fun h => ?_, table_of_inSet⟩
  obtain ⟨m, hm, hlow⟩ := (charSetTable_table fold charSet _).mp h
  have hsmall := (charSetTable_complete fold charSet).mp hcomplete m hm
  have hmod := lowByte_eq_iff.mp hlow
  have heq : fold m = c := UInt16.toNat_inj.mp (by omega)
  exact List.any_eq_true.mpr ⟨m, hm, beq_iff_eq.mpr heq⟩

theorem splitsAtChar_eq (h : IsUppercase phUpcaseUnicodeChar flags charSet) (c : WChar) :
    splitsAtChar phUpcaseUnicodeChar flags charSet c =
      isSeparator phUpcaseUnicodeChar flags charSet c := by
  rw [splitsAtChar, isSeparator]
  simp only [inCharSet_eq h]
  generalize splitFold phUpcaseUnicodeChar flags c = d
  generalize hfold : splitFold phUpcaseUnicodeChar flags = fold
  have htable : charSet.any (fun m => fold m == d) = true →
      (charSetTable fold charSet).table (lowByte d) = true := table_of_inSet
  split
  · next hsmall =>
      rw [table_of_small hsmall.1 hsmall.2]
      cases flags.complementCharSet <;> cases charSet.any (fun m => fold m == d) <;> rfl
  · cases hin : charSet.any (fun m => fold m == d) with
    | true =>
        rw [htable hin]
        cases flags.complementCharSet <;> rfl
    | false =>
        cases flags.complementCharSet <;> cases (charSetTable fold charSet).table (lowByte d) <;> rfl

/-! ## The loops -/

theorem splitLoopStart_eq (stops : WChar → Bool) (string : List WChar) : ∀ i s,
    i + s = string.length →
    splitLoopStart stops string i s = findCharRest (2 * string.length) stops i (string.drop s) := by
  intro i
  induction i with
  | zero => exact fun s _ => rfl
  | succ i ih =>
      intro s hs
      have hlt : s < string.length := by omega
      have hplace : 2 * string.length / 2 - (i + 1) = s := by omega
      rw [splitLoopStart, findCharRest, hplace, List.drop_eq_getElem_cons hlt, List.headD_cons,
        List.tail_cons, List.getD_eq_getElem _ _ hlt, ih (s + 1) (by omega)]

theorem splitLoopEnd_eq (stops : WChar → Bool) (string : List WChar) : ∀ i,
    splitLoopEnd stops string i (i - 1) = findLastCharRest string stops i := by
  intro i
  induction i with
  | zero => rfl
  | succ i ih => rw [splitLoopEnd, findLastCharRest, Nat.add_sub_cancel, ih]

/-- What a search is for: the first index, or the last one. -/
def Searched (fromEnd : Bool) (p : WChar → Bool) (string : List WChar) (r : Option Nat) : Prop :=
  if fromEnd then Last (At p string) string.length r else First (At p string) string.length r

theorem Searched.none_iff {fromEnd : Bool} {p : WChar → Bool} {string : List WChar}
    {r : Option Nat} (h : Searched fromEnd p string r) :
    r.isSome = true ↔ ∃ c ∈ string, p c = true := by
  have hat : (∃ c ∈ string, p c = true) ↔ ∃ i, At p string i := by
    constructor
    · rintro ⟨c, hc, hp⟩
      obtain ⟨i, hi, rfl⟩ := List.getElem_of_mem hc
      exact ⟨i, (at_iff hi).mpr hp⟩
    · rintro ⟨i, c, hc, hp⟩
      exact ⟨c, List.mem_of_getElem? hc, hp⟩
  rw [hat]
  cases fromEnd with
  | false =>
      cases r with
      | none => exact iff_of_false Bool.false_ne_true fun ⟨i, hi⟩ => h i hi.lt hi
      | some i => exact iff_of_true rfl ⟨i, h.2.1⟩
  | true =>
      cases r with
      | none => exact iff_of_false Bool.false_ne_true fun ⟨i, hi⟩ => h i hi.lt hi
      | some i => exact iff_of_true rfl ⟨i, h.2.1⟩

theorem splitLoops_searched (stops : WChar → Bool) (string : List WChar) (fromEnd : Bool) :
    Searched fromEnd stops string
      (if fromEnd = false then splitLoopStart stops string string.length 0
        else splitLoopEnd stops string string.length (string.length - 1)) := by
  cases fromEnd with
  | false =>
      show First _ _ (splitLoopStart stops string string.length 0)
      rw [splitLoopStart_eq _ _ _ _ (Nat.add_zero _), List.drop_zero]
      exact findCharRest_all stops string
  | true =>
      show Last _ _ (splitLoopEnd stops string string.length (string.length - 1))
      rw [splitLoopEnd_eq]
      exact findLastCharRest_last _ _ _ le_rfl

/-! ## The C runtime -/

/-- What the counted string and the C string at its buffer have in common. -/
def sharedChars (string : PhStringRef) : List WChar :=
  match string.chars.dropWhile (· ≠ 0) with
  | [] => string.chars
  | _ :: _ => string.chars.takeWhile (· ≠ 0) ++ [0]

theorem sharedChars_cases (string : PhStringRef) :
    (string.chars = sharedChars string ∧
      cStringAt string = sharedChars string ++ hiddenChars string) ∨
    (cStringAt string = sharedChars string ∧
      string.chars = sharedChars string ++ hiddenChars string) := by
  have hsplit := List.takeWhile_append_dropWhile (p := (· ≠ 0)) (l := string.chars)
  have hcases := cStringAt_cases string
  have hhidden : hiddenChars string = match string.chars.dropWhile (· ≠ 0) with
    | [] => string.after.takeWhile (· ≠ 0) ++ [0]
    | _ :: rest => rest := rfl
  rw [sharedChars]
  cases hdrop : string.chars.dropWhile (· ≠ 0) with
  | nil =>
      left
      refine ⟨rfl, hcases.resolve_left fun h => ?_⟩
      rw [hdrop] at hhidden
      have hlength := congrArg List.length h
      rw [hdrop, List.append_nil] at hsplit
      have hall : ∀ c ∈ string.chars, decide (c ≠ 0) = true := List.takeWhile_eq_self_iff.mp hsplit
      rw [hhidden, cStringAt, List.takeWhile_append_of_pos hall] at hlength
      simp only [List.length_append, List.length_singleton] at hlength
      omega
  | cons d rest =>
      right
      rw [hdrop] at hhidden hsplit
      have hd : d = 0 := by
        have hhead := List.head?_dropWhile_not (fun c : WChar => decide (c ≠ 0)) string.chars
        rw [hdrop] at hhead
        simpa using hhead
      have hchars : string.chars = string.chars.takeWhile (· ≠ 0) ++ [0] ++ hiddenChars string := by
        rw [hhidden, List.append_assoc, List.singleton_append]
        rw [hd] at hsplit
        exact hsplit.symm
      refine ⟨?_, hchars⟩
      have hshort : (string.chars.takeWhile (· ≠ 0)).length ≠ string.chars.length := by
        have hlength := congrArg List.length hsplit
        rw [List.length_append, List.length_cons] at hlength
        omega
      rw [cStringAt, List.takeWhile_append, if_neg hshort]

theorem first_append_of_mem {p : WChar → Bool} {l l' : List WChar} {r : Option Nat}
    (h : ∃ c ∈ l, p c = true) :
    First (At p (l ++ l')) (l ++ l').length r ↔ First (At p l) l.length r := by
  have hback : ∀ {r}, First (At p l) l.length r → First (At p (l ++ l')) (l ++ l').length r := by
    intro r hr
    cases r with
    | none =>
        obtain ⟨c, hc, hp⟩ := h
        obtain ⟨i, hi, rfl⟩ := List.getElem_of_mem hc
        exact absurd ((at_iff hi).mpr hp) (hr i hi)
    | some i =>
        have hi : i < l.length := hr.1
        refine ⟨by rw [List.length_append]; omega, (at_append_left hi).mpr hr.2.1, fun j hj => ?_⟩
        rw [at_append_left (hj.trans hi)]
        exact hr.2.2 j hj
  refine ⟨fun hr => ?_, hback⟩
  rw [hr.unique (hback (first_findIdx? p l))]
  exact first_findIdx? p l

/-- The C function finds the place in the counted string. -/
def CStringTells (fromEnd : Bool) (string : PhStringRef) (c : WChar) : Prop :=
  c ∉ hiddenChars string ∨ (fromEnd = false ∧ c ∈ sharedChars string)

theorem not_match_of_notMem {l : List WChar} (h : c ∉ l) : ∀ d ∈ l, (d == c) = false :=
  fun _ hd => beq_eq_false_iff_ne.mpr fun heq => h (heq ▸ hd)

theorem wcschr_searched_iff (string : PhStringRef) (c : WChar) :
    Searched false (· == c) string.chars (wcschr (string.chars ++ string.after) c) ↔
      CStringTells false string c := by
  have hfirst := wcschr_first string c
  have hmem : ∀ l : List WChar, c ∈ l → ∃ d ∈ l, (d == c) = true :=
    fun l hl => ⟨c, hl, beq_self_eq_true c⟩
  show First _ _ _ ↔ _
  generalize wcschr (string.chars ++ string.after) c = r at hfirst ⊢
  by_cases hhidden : c ∈ hiddenChars string
  · by_cases hshared : c ∈ sharedChars string
    · refine iff_of_true ?_ (.inr ⟨rfl, hshared⟩)
      rcases sharedChars_cases string with ⟨hchars, hstring⟩ | ⟨hstring, hchars⟩
      · rw [hstring, first_append_of_mem (hmem _ hshared)] at hfirst
        rwa [hchars]
      · rw [hchars, first_append_of_mem (hmem _ hshared)]
        rwa [hstring] at hfirst
    · refine iff_of_false (fun h => ?_) fun h => h.elim (· hhidden) fun h => hshared h.2
      have hnone : First (At (· == c) (sharedChars string)) (sharedChars string).length none :=
        fun i hi hat => by
          rw [at_iff hi, not_match_of_notMem hshared _ (List.getElem_mem hi)] at hat
          exact Bool.false_ne_true hat
      have hsome : ¬ First (At (· == c) (sharedChars string ++ hiddenChars string))
          (sharedChars string ++ hiddenChars string).length none := by
        intro hno
        obtain ⟨i, hi, heq⟩ := List.getElem_of_mem
          (List.mem_append_right (sharedChars string) hhidden)
        exact hno i hi ((at_iff hi).mpr (beq_iff_eq.mpr heq))
      rcases sharedChars_cases string with ⟨hchars, hstring⟩ | ⟨hstring, hchars⟩
      · rw [hchars] at h
        rw [hstring, h.unique hnone] at hfirst
        exact hsome hfirst
      · rw [hstring] at hfirst
        rw [hchars, hfirst.unique hnone] at h
        exact hsome h
  · refine iff_of_true ?_ (.inl hhidden)
    have hno := not_match_of_notMem hhidden
    rcases sharedChars_cases string with ⟨hchars, hstring⟩ | ⟨hstring, hchars⟩
    · rw [hstring, first_append_iff hno] at hfirst
      rwa [hchars]
    · rw [hchars, first_append_iff hno]
      rwa [hstring] at hfirst

theorem wcsrchr_searched_iff (string : PhStringRef) (c : WChar) :
    Searched true (· == c) string.chars (wcsrchr (string.chars ++ string.after) c) ↔
      CStringTells true string c := by
  have hlast := wcsrchr_last string c
  have htells : CStringTells true string c ↔ c ∉ hiddenChars string :=
    or_iff_left fun h => absurd h.1 (by decide)
  show Last _ _ _ ↔ _
  rw [htells]
  generalize wcsrchr (string.chars ++ string.after) c = r at hlast ⊢
  have hin : (∀ d ∈ hiddenChars string, (d == c) = false) → c ∉ hiddenChars string :=
    fun h hc => absurd (h c hc) (by rw [beq_self_eq_true]; exact Bool.noConfusion)
  rcases sharedChars_cases string with ⟨hchars, hstring⟩ | ⟨hstring, hchars⟩
  · rw [hstring] at hlast
    constructor
    · exact fun h => hin (not_match_of_last (hchars ▸ h) hlast)
    · intro h
      rw [last_append_iff (not_match_of_notMem h)] at hlast
      rwa [hchars]
  · rw [hstring] at hlast
    constructor
    · exact fun h => hin (not_match_of_last hlast (hchars ▸ h))
    · intro h
      rw [hchars, last_append_iff (not_match_of_notMem h)]
      exact hlast

/-! ## The search -/

/-- The one character of the set is found where it should be. -/
def SplitTells (processor : Processor) (input : PhStringRef) (flags : SplitFlags)
    (charSet : List WChar) : Prop :=
  flags.complementCharSet = false → UsesCString processor input flags.caseInsensitive →
    ∀ m, charSet = [m] → CStringTells flags.startAtEnd input m

theorem isSeparator_single (hcomplement : flags.complementCharSet = false) (m : WChar) :
    isSeparator phUpcaseUnicodeChar flags [m] =
      isMatch phUpcaseUnicodeChar flags.caseInsensitive m := by
  funext c
  rw [isSeparator, hcomplement, Bool.xor_false, List.any_cons, List.any_nil, Bool.or_false,
    isMatch]
  exact Bool.beq_comm

theorem findChar_searched_iff (input : PhStringRef) (ignoreCase fromEnd : Bool) (m : WChar) :
    Searched fromEnd (isMatch phUpcaseUnicodeChar ignoreCase m) input.chars
        (if fromEnd = false then
          phFindCharInStringRef processor phUpcaseUnicodeChar input m ignoreCase
        else phFindLastCharInStringRef processor phUpcaseUnicodeChar input m ignoreCase) ↔
      (UsesCString processor input ignoreCase → CStringTells fromEnd input m) := by
  by_cases huses : UsesCString processor input ignoreCase
  · obtain ⟨rfl, hintrinsics, hbuffer⟩ := huses
    have hfind : phFindCharInStringRef processor phUpcaseUnicodeChar input m false =
        wcschr (input.chars ++ input.after) m := by
      simp only [phFindCharInStringRef, hintrinsics, hbuffer, if_neg Bool.false_ne_true, if_pos]
    have hfindLast : phFindLastCharInStringRef processor phUpcaseUnicodeChar input m false =
        wcsrchr (input.chars ++ input.after) m := by
      simp only [phFindLastCharInStringRef, hintrinsics, hbuffer, if_neg Bool.false_ne_true, if_pos]
    have huses : UsesCString processor input false := ⟨rfl, hintrinsics, hbuffer⟩
    rw [hfind, hfindLast, isMatch_false, forall_prop_of_true huses]
    cases fromEnd with
    | false => exact wcschr_searched_iff input m
    | true => exact wcsrchr_searched_iff input m
  · refine iff_of_true ?_ fun h => absurd h huses
    cases fromEnd with
    | false => exact phFindCharInStringRef_first huses m
    | true => exact phFindLastCharInStringRef_last huses m

theorem splitSearch_charSet (input : PhStringRef)
    (hupper : IsUppercase phUpcaseUnicodeChar flags charSet) :
    ∃ r, splitSearch processor phUpcaseUnicodeChar input (.charSet charSet) flags = r.map (·, 2) ∧
      (Searched flags.startAtEnd (isSeparator phUpcaseUnicodeChar flags charSet) input.chars r ↔
        SplitTells processor input flags charSet) := by
  rw [splitSearch]
  dsimp only
  split
  · next hsingle =>
      obtain ⟨m, rfl⟩ := List.length_eq_one_iff.mp hsingle.2
      refine ⟨_, rfl, ?_⟩
      rw [isSeparator_single hsingle.1, List.headD_cons, findChar_searched_iff]
      constructor
      · intro h _ huses m' hm
        exact (List.cons.inj hm).1 ▸ h huses
      · exact fun h huses => h hsingle.1 huses m rfl
  · next hmany =>
      have htells : SplitTells processor input flags charSet := fun hcomplement _ m hm =>
        absurd ⟨hcomplement, by rw [hm]; rfl⟩ hmany
      split
      · next hempty =>
          refine ⟨none, rfl, iff_of_true ?_ htells⟩
          rw [hempty]
          cases flags.startAtEnd with
          | false => exact fun i hi => absurd hi (Nat.not_lt_zero i)
          | true => exact fun i hi => absurd hi (Nat.not_lt_zero i)
      · refine ⟨_, rfl, iff_of_true ?_ htells⟩
        have heq : isSeparator phUpcaseUnicodeChar flags charSet =
            splitsAtChar phUpcaseUnicodeChar flags charSet :=
          funext fun c => (splitsAtChar_eq hupper c).symm
        rw [heq]
        exact splitLoops_searched _ _ _

/-! ## The parts -/

def PhStringRef.text (input : PhStringRef) (part : RefValue) : List WChar :=
  match part.buffer with
  | some buffer => ((input.chars ++ input.after).drop buffer).take (part.length / 2)
  | none => []

/-- What the output for the separator is, where there is one. -/
def SplitCall.StoredSeparator (call : SplitCall) (refs : Nat → RefValue) (part : RefValue) : Prop :=
  ∀ place, call.separatorPart = some place → refs place = part

/-- What is expected of a split at a character that passes the test. -/
structure SplitMeets (call : SplitCall) (p : WChar → Bool) (fromEnd : Bool)
    (result : Bool × (Nat → RefValue)) : Prop where
  found : result.1 = true ↔ ∃ c ∈ call.input.chars, p c = true
  parts : result.1 = true → ∃ i, Searched fromEnd p call.input.chars (some i) ∧
    result.2 call.firstPart = ⟨some 0, 2 * i⟩ ∧
    call.StoredSeparator result.2 ⟨some i, 2⟩ ∧
    result.2 call.secondPart = ⟨some (i + 1), 2 * (call.input.chars.length - (i + 1))⟩ ∧
    (call.input.text ⟨some i, 2⟩).length = 1 ∧
    call.input.text (result.2 call.firstPart) ++ call.input.text ⟨some i, 2⟩ ++
      call.input.text (result.2 call.secondPart) = call.input.chars
  whole : result.1 = false → result.2 call.firstPart = call.input.value ∧
    result.2 call.secondPart = ⟨none, 0⟩ ∧ call.StoredSeparator result.2 ⟨none, 0⟩
  others : ∀ place, place ≠ call.firstPart → place ≠ call.secondPart →
    call.separatorPart ≠ some place → result.2 place = call.refs place

variable {call : SplitCall}

theorem storeParts_first (first second separator : RefValue) :
    call.storeParts first second separator call.firstPart = first := by
  have hsecond : Function.update (Function.update call.refs call.firstPart first) call.secondPart
      second call.firstPart = first := by
    rw [Function.update_of_ne call.second_ne.symm, Function.update_self]
  rw [SplitCall.storeParts]
  cases hpart : call.separatorPart with
  | none => exact hsecond
  | some part =>
      dsimp only
      rw [Function.update_of_ne (call.separator_ne part hpart).1.symm, hsecond]

theorem storeParts_second (first second separator : RefValue) :
    call.storeParts first second separator call.secondPart = second := by
  rw [SplitCall.storeParts]
  cases hpart : call.separatorPart with
  | none => exact Function.update_self _ _ _
  | some part =>
      dsimp only
      rw [Function.update_of_ne (call.separator_ne part hpart).2.symm, Function.update_self]

theorem storeParts_separator (first second separator : RefValue) :
    call.StoredSeparator (call.storeParts first second separator) separator := by
  intro place hplace
  rw [SplitCall.storeParts, hplace]
  exact Function.update_self _ _ _

theorem storeParts_other (first second separator : RefValue) {place : Nat}
    (hfirst : place ≠ call.firstPart) (hsecond : place ≠ call.secondPart)
    (hseparator : call.separatorPart ≠ some place) :
    call.storeParts first second separator place = call.refs place := by
  have htwo : Function.update (Function.update call.refs call.firstPart first) call.secondPart
      second place = call.refs place := by
    rw [Function.update_of_ne hsecond, Function.update_of_ne hfirst]
  rw [SplitCall.storeParts]
  cases hpart : call.separatorPart with
  | none => exact htwo
  | some part =>
      dsimp only
      rw [Function.update_of_ne fun h => hseparator (hpart.trans (congrArg some h.symm)), htwo]

theorem text_part {input : PhStringRef} {buffer count : Nat}
    (h : buffer + count ≤ input.chars.length) :
    input.text ⟨some buffer, 2 * count⟩ = (input.chars.drop buffer).take count := by
  show ((input.chars ++ input.after).drop buffer).take (2 * count / 2) = _
  rw [Nat.mul_div_cancel_left _ (by decide), List.drop_append_of_le_length (by omega),
    List.take_append_of_le_length (by rw [List.length_drop]; omega)]

theorem text_joined {input : PhStringRef} {i : Nat} (hi : i < input.chars.length) :
    (input.text ⟨some i, 2⟩).length = 1 ∧
      input.text ⟨some 0, 2 * i⟩ ++ input.text ⟨some i, 2⟩ ++
        input.text ⟨some (i + 1), 2 * (input.chars.length - (i + 1))⟩ = input.chars := by
  have hseparator : input.text ⟨some i, 2⟩ = (input.chars.drop i).take 1 :=
    text_part (show i + 1 ≤ input.chars.length by omega)
  rw [hseparator, text_part (by omega), text_part (by omega), List.drop_zero]
  constructor
  · rw [List.length_take, List.length_drop]
    omega
  · rw [List.append_assoc, ← List.length_drop (l := input.chars), List.take_length,
      ← List.drop_drop, List.take_append_drop, List.take_append_drop]

theorem phSplitStringRefEx_notFound {separator : SplitSeparator}
    (h : splitSearch processor phUpcaseUnicodeChar call.input separator flags = none) :
    phSplitStringRefEx processor phUpcaseUnicodeChar call separator flags =
      (false, call.storeParts call.input.value ⟨none, 0⟩ ⟨none, 0⟩) := by
  rw [phSplitStringRefEx, h, call.input_value]

theorem phSplitStringRefEx_found {separator : SplitSeparator} {i : Nat}
    (h : splitSearch processor phUpcaseUnicodeChar call.input separator flags = some (i, 2)) :
    phSplitStringRefEx processor phUpcaseUnicodeChar call separator flags =
      (true, call.storeParts ⟨call.input.value.buffer, i * 2 % 2 ^ 64⟩
        ⟨call.input.value.buffer.map (· + (i + 1)),
          (2 * call.input.chars.length + (2 ^ 64 - i * 2 % 2 ^ 64) + (2 ^ 64 - 2)) % 2 ^ 64⟩
        ⟨call.input.value.buffer.map (· + i), 2⟩) := by
  rw [phSplitStringRefEx, h, call.input_value]
  rfl

theorem value_buffer (input : PhStringRef) (h : input.chars ≠ []) :
    input.value.buffer = some 0 := by
  cases hbuffer : input.hasBuffer with
  | false => exact absurd (input.null_chars hbuffer) h
  | true =>
      show (if input.hasBuffer then some 0 else none) = _
      rw [hbuffer]
      rfl

theorem splitMeets_iff {separator : SplitSeparator} {r : Option Nat} (p : WChar → Bool)
    (fromEnd : Bool)
    (h : splitSearch processor phUpcaseUnicodeChar call.input separator flags = r.map (·, 2)) :
    SplitMeets call p fromEnd
        (phSplitStringRefEx processor phUpcaseUnicodeChar call separator flags) ↔
      Searched fromEnd p call.input.chars r := by
  have hlast := last_findIdx?_reverse p call.input.chars
  have hexists : ∃ r, Searched fromEnd p call.input.chars r := by
    cases fromEnd with
    | false => exact ⟨_, first_findIdx? p call.input.chars⟩
    | true => exact ⟨_, last_findIdx?_reverse p call.input.chars⟩
  have hfits := call.input_fits
  cases r with
  | none =>
      rw [phSplitStringRefEx_notFound h]
      constructor
      · intro hmeets
        obtain ⟨r, hr⟩ := hexists
        cases r with
        | none => exact hr
        | some i => exact absurd (hmeets.found.mpr (hr.none_iff.mp rfl)) Bool.false_ne_true
      · intro hr
        refine ⟨hr.none_iff, fun h => absurd h Bool.false_ne_true, fun _ => ?_, fun place => ?_⟩
        · exact ⟨storeParts_first _ _ _, storeParts_second _ _ _, storeParts_separator _ _ _⟩
        · exact storeParts_other _ _ _
  | some i =>
      rw [phSplitStringRefEx_found h]
      constructor
      · intro hmeets
        obtain ⟨j, hj, -, -, hsecond, -⟩ := hmeets.parts rfl
        have hlt : j < call.input.chars.length := by
          cases fromEnd with
          | false => exact hj.1
          | true => exact hj.1
        have hbuffer := value_buffer call.input fun hnil => by
          rw [hnil] at hlt
          exact Nat.not_lt_zero _ hlt
        dsimp only at hsecond
        rw [storeParts_second, hbuffer, RefValue.mk.injEq] at hsecond
        have heq : 0 + (i + 1) = j + 1 := Option.some.inj hsecond.1
        obtain rfl : i = j := by omega
        exact hj
      · intro hi
        have hlt : i < call.input.chars.length := by
          cases fromEnd with
          | false => exact hi.1
          | true => exact hi.1
        have hbuffer := value_buffer call.input fun hnil => by
          rw [hnil] at hlt
          exact Nat.not_lt_zero _ hlt
        have hlength : (2 * call.input.chars.length + (2 ^ 64 - i * 2 % 2 ^ 64) + (2 ^ 64 - 2)) %
            2 ^ 64 = 2 * (call.input.chars.length - (i + 1)) := by omega
        have hstart : i * 2 % 2 ^ 64 = 2 * i := by omega
        have hjoined := text_joined hlt
        rw [hbuffer, hlength, hstart]
        refine ⟨hi.none_iff, fun _ => ⟨i, hi, storeParts_first _ _ _, ?_, ?_, hjoined.1, ?_⟩,
          fun h => absurd h.symm Bool.false_ne_true, fun place => storeParts_other _ _ _⟩
        · have hplace : (some 0 : Option Nat).map (· + i) = some i := congrArg some (Nat.zero_add i)
          rw [hplace]
          exact storeParts_separator _ _ _
        · have hplace : (some 0 : Option Nat).map (· + (i + 1)) = some (i + 1) :=
            congrArg some (Nat.zero_add _)
          rw [hplace]
          exact storeParts_second _ _ _
        · have hplace : (some 0 : Option Nat).map (· + (i + 1)) = some (i + 1) :=
            congrArg some (Nat.zero_add _)
          dsimp only
          rw [hplace, storeParts_first, storeParts_second]
          exact hjoined.2

/-- In the mode for character sets the split is right exactly when a single character, where it is
left to the C runtime, is found where it should be. -/
theorem phSplitStringRefEx_meets_iff (processor : Processor)
    (phUpcaseUnicodeChar : WChar → WChar) (call : SplitCall) (charSet : List WChar)
    (flags : SplitFlags) (hupper : IsUppercase phUpcaseUnicodeChar flags charSet) :
    SplitMeets call (isSeparator phUpcaseUnicodeChar flags charSet) flags.startAtEnd
        (phSplitStringRefEx processor phUpcaseUnicodeChar call (.charSet charSet) flags) ↔
      SplitTells processor call.input flags charSet := by
  obtain ⟨r, hr, hiff⟩ :=
    @splitSearch_charSet processor phUpcaseUnicodeChar flags charSet call.input hupper
  rw [splitMeets_iff _ _ hr, hiff]

/-- A call whose first part is stored over its input. -/
def aliasedCall (input : PhStringRef) (h : 2 * input.chars.length < 2 ^ 64) : SplitCall where
  refs _ := input.value
  inputPlace := 0
  firstPart := 0
  secondPart := 1
  separatorPart := some 2
  input := input
  input_value := rfl
  input_fits := h
  second_ne := by decide
  separator_ne := fun part hpart => by
    obtain rfl := Option.some.inj hpart
    decide

theorem phSplitStringRefEx_meets_ofChars :
    SplitMeets (aliasedCall (.ofChars [0x41, 0x2c]) (by decide))
      (isSeparator id ⟨true, true, true, true⟩ [0x2c, 0x3b]) true
      (phSplitStringRefEx ⟨false, false⟩ id (aliasedCall (.ofChars [0x41, 0x2c]) (by decide))
        (.charSet [0x2c, 0x3b]) ⟨true, true, true, true⟩) :=
  (phSplitStringRefEx_meets_iff ⟨false, false⟩ id _ _ _ fun _ _ _ => rfl).mpr
    fun h => absurd h.symm Bool.false_ne_true

/-- Without intrinsics a comma behind the end of `A` is taken for the separator. -/
theorem phSplitStringRefEx_behindEnd :
    ¬ SplitMeets (aliasedCall ⟨true, [0x41], [0x2c], fun h => absurd h (by decide)⟩ (by decide))
      (isSeparator id ⟨false, false, false, false⟩ [0x2c]) false
      (phSplitStringRefEx ⟨false, false⟩ id
        (aliasedCall ⟨true, [0x41], [0x2c], fun h => absurd h (by decide)⟩ (by decide))
        (.charSet [0x2c]) ⟨false, false, false, false⟩) := by
  intro h
  have hfound : (phSplitStringRefEx ⟨false, false⟩ id
      (aliasedCall ⟨true, [0x41], [0x2c], fun h => absurd h (by decide)⟩ (by decide))
      (.charSet [0x2c]) ⟨false, false, false, false⟩).1 = true := by
    decide +kernel
  obtain ⟨c, hc, hp⟩ := h.found.mp hfound
  obtain rfl := List.mem_singleton.mp hc
  exact absurd hp (by decide +kernel)

end SystemInformer.PhLib
