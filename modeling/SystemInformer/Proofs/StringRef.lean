import SystemInformer.Lib.Indices
import SystemInformer.PhLib.StringRef

/-!
# Comparing and searching counted strings

A comparison goes through blocks and then characters, and either way decides whether the two
strings are the same after folding (`phEqualStringRef_iff`). A search through blocks finds in the
first block with a set bit the first character of it, and what a search has passed over holds no
match; so all searches that look at counted characters return the first, or the last, index.

The two searches that are left to the C runtime look at the C string instead: they do not see what
is behind a null character, and go on behind the end when there is none. They return what they
should exactly when that makes no difference, which for the null character itself is when the
string holds exactly one.
-/

namespace SystemInformer.PhLib

open Indices

variable {processor : Processor} {phUpcaseUnicodeChar : WChar → WChar}

def foldChar (phUpcaseUnicodeChar : WChar → WChar) (ignoreCase : Bool) (c : WChar) : WChar :=
  if ignoreCase then phUpcaseUnicodeChar c else c

/-! ## Equality -/

theorem compareCharacters_iff (ignoreCase : Bool) : ∀ (l1 : Nat) (s1 s2 : List WChar),
    s1.length = l1 → s2.length = l1 →
    (compareCharacters phUpcaseUnicodeChar ignoreCase l1 s1 s2 = true ↔
      s1.map (foldChar phUpcaseUnicodeChar ignoreCase) =
        s2.map (foldChar phUpcaseUnicodeChar ignoreCase)) := by
  intro l1
  induction l1 with
  | zero =>
      intro s1 s2 h1 h2
      rw [List.length_eq_zero_iff.mp h1, List.length_eq_zero_iff.mp h2]
      exact iff_of_true rfl rfl
  | succ l1 ih =>
      intro s1 s2 h1 h2
      obtain ⟨c1, s1, rfl⟩ := List.exists_cons_of_length_eq_add_one h1
      obtain ⟨c2, s2, rfl⟩ := List.exists_cons_of_length_eq_add_one h2
      rw [List.length_cons, Nat.add_right_cancel_iff] at h1 h2
      rw [List.map_cons, List.map_cons, List.cons.injEq, ← ih s1 s2 h1 h2]
      show (if c1 ≠ c2 ∧ (ignoreCase = true → phUpcaseUnicodeChar c1 ≠ phUpcaseUnicodeChar c2)
        then false else compareCharacters phUpcaseUnicodeChar ignoreCase l1 s1 s2) = true ↔ _
      cases ignoreCase with
      | false =>
          by_cases hc : c1 = c2
          · rw [if_neg fun h => h.1 hc]
            exact (and_iff_right hc).symm
          · rw [if_pos ⟨hc, fun h => absurd h Bool.false_ne_true⟩]
            exact iff_of_false Bool.false_ne_true fun h => hc h.1
      | true =>
          by_cases hc : phUpcaseUnicodeChar c1 = phUpcaseUnicodeChar c2
          · rw [if_neg fun h => h.2 rfl hc]
            exact (and_iff_right hc).symm
          · rw [if_pos ⟨fun h => hc (congrArg _ h), fun _ => hc⟩]
            exact iff_of_false Bool.false_ne_true fun h => hc h.1

theorem equalBlocks_iff (ignoreCase : Bool) {block rest : Nat} : ∀ (length : Nat)
    (s1 s2 : List WChar), s1.length = length * block + rest → s2.length = length * block + rest →
    (equalBlocks phUpcaseUnicodeChar ignoreCase block rest length s1 s2 = true ↔
      s1.map (foldChar phUpcaseUnicodeChar ignoreCase) =
        s2.map (foldChar phUpcaseUnicodeChar ignoreCase)) := by
  intro length
  induction length with
  | zero =>
      intro s1 s2 h1 h2
      rw [Nat.zero_mul, Nat.zero_add] at h1 h2
      exact compareCharacters_iff ignoreCase rest s1 s2 h1 h2
  | succ length ih =>
      intro s1 s2 h1 h2
      rw [equalBlocks]
      by_cases hblock : s1.take block = s2.take block
      · have hlength : ∀ s : List WChar, s.length = (length + 1) * block + rest →
            (s.drop block).length = length * block + rest := by
          intro s hs
          rw [List.length_drop, hs, Nat.add_mul, Nat.one_mul]
          omega
        rw [if_neg (not_not.mpr hblock), ih _ _ (hlength s1 h1) (hlength s2 h2)]
        conv_rhs => rw [← List.take_append_drop block s1, ← List.take_append_drop block s2, hblock,
          List.map_append, List.map_append, List.append_cancel_left_eq]
      · rw [if_pos hblock]
        cases ignoreCase with
        | false =>
            refine iff_of_false Bool.false_ne_true fun h => hblock ?_
            have hid : foldChar phUpcaseUnicodeChar false = id := rfl
            rw [hid, List.map_id, List.map_id] at h
            rw [h]
        | true => exact compareCharacters_iff true _ s1 s2 h1 h2

theorem phEqualStringRef_iff (string1 string2 : List WChar) (ignoreCase : Bool) :
    phEqualStringRef processor phUpcaseUnicodeChar string1 string2 ignoreCase = true ↔
      string1.map (foldChar phUpcaseUnicodeChar ignoreCase) =
        string2.map (foldChar phUpcaseUnicodeChar ignoreCase) := by
  rw [phEqualStringRef]
  by_cases hlength : string1.length = string2.length
  · rw [if_neg (not_not.mpr hlength)]
    have hsplit : ∀ block, string1.length =
        string1.length / block * block + string1.length % block := fun block => by
      rw [Nat.mul_comm, Nat.div_add_mod]
    exact equalBlocks_iff ignoreCase _ _ _ (hsplit _) (hlength.symm.trans (hsplit _))
  · rw [if_pos hlength]
    refine iff_of_false Bool.false_ne_true fun h => hlength ?_
    rw [← List.length_map (foldChar phUpcaseUnicodeChar ignoreCase), h, List.length_map]

/-! ## The masks -/

theorem findIdx?_compareMask (character : WChar) (block : List WChar) :
    ((compareMask character block).findIdx? id).map (· / 2) =
      block.findIdx? (· == character) := by
  induction block with
  | nil => rfl
  | cons c block ih =>
      rw [compareMask, List.flatMap_cons, List.cons_append, List.cons_append, List.nil_append,
        ← compareMask, List.findIdx?_cons, List.findIdx?_cons, List.findIdx?_cons]
      by_cases hc : (c == character) = true
      · rw [if_pos (by exact hc), if_pos hc]
        rfl
      · rw [if_neg (by exact hc), if_neg (by exact hc), if_neg hc, ← ih, Option.map_map,
          Option.map_map, Option.map_map]
        refine congrArg (Option.map · _) (funext fun i => ?_)
        dsimp only [Function.comp_apply]
        omega

theorem reverse_compareMask (character : WChar) (block : List WChar) :
    (compareMask character block).reverse = compareMask character block.reverse := by
  rw [compareMask, compareMask, List.reverse_flatMap]
  rfl

theorem length_compareMask (character : WChar) (block : List WChar) :
    (compareMask character block).length = 2 * block.length := by
  induction block with
  | nil => rfl
  | cons c block ih =>
      rw [compareMask, List.flatMap_cons, ← compareMask, List.length_append, ih, List.length_cons,
        List.length_cons, List.length_cons, List.length_nil]
      omega

theorem bitScanForward_compareMask (character : WChar) (block : List WChar) :
    (bitScanForward (compareMask character block)).map (· / 2) =
      block.findIdx? (· == character) :=
  findIdx?_compareMask character block

theorem bitScanReverse_compareMask (character : WChar) (block : List WChar) :
    (bitScanReverse (compareMask character block)).map (· / 2) =
      (block.reverse.findIdx? (· == character)).map (block.length - 1 - ·) := by
  rw [bitScanReverse, reverse_compareMask, length_compareMask, ← findIdx?_compareMask,
    Option.map_map, Option.map_map]
  cases hscan : (compareMask character block.reverse).findIdx? id with
  | none => rfl
  | some i =>
      have hlt := (List.findIdx?_eq_some_iff_getElem.mp hscan).1
      rw [length_compareMask, List.length_reverse] at hlt
      rw [Option.map_some, Option.map_some]
      refine congrArg some ?_
      dsimp only [Function.comp_apply]
      omega

/-! ## The first character -/

/-- The property of a character that is looked for. -/
def isMatch (phUpcaseUnicodeChar : WChar → WChar) (ignoreCase : Bool) (character c : WChar) :
    Bool :=
  foldChar phUpcaseUnicodeChar ignoreCase c == foldChar phUpcaseUnicodeChar ignoreCase character

theorem findCharRest_first (p : WChar → Bool) (string : List WChar) : ∀ length,
    length ≤ string.length → (∀ j < string.length - length, ¬ At p string j) →
    First (At p string) string.length
      (findCharRest (2 * string.length) p length (string.drop (string.length - length))) := by
  intro length
  induction length with
  | zero => intro _ hbefore; exact hbefore
  | succ length ih =>
      intro hle hbefore
      have hlt : string.length - (length + 1) < string.length := by omega
      have hnext : string.length - (length + 1) + 1 = string.length - length := by omega
      have hat := at_iff (p := p) hlt
      rw [findCharRest, List.drop_eq_getElem_cons hlt, List.headD_cons, List.tail_cons, hnext,
        Nat.mul_div_cancel_left _ (by decide : 0 < 2)]
      by_cases hmatch : p string[string.length - (length + 1)] = true
      · rw [if_pos hmatch]
        exact ⟨hlt, hat.mpr hmatch, hbefore⟩
      · rw [if_neg hmatch]
        refine ih (by omega) fun j hj => ?_
        rcases Nat.lt_or_eq_of_le (Nat.le_of_lt_succ (hnext ▸ hj)) with hlow | rfl
        · exact hbefore j hlow
        · exact fun h => hmatch (hat.mp h)

theorem findCharBlocks_first (character : WChar) (string : List WChar) : ∀ length16 position,
    position + length16 * 8 + string.length % 8 = string.length →
    (∀ j < position, ¬ At (· == character) string j) →
    First (At (· == character) string) (position + length16 * 8)
      (findCharBlocks (2 * string.length) character length16 (string.drop position)) := by
  intro length16
  induction length16 with
  | zero => intro position _ hbefore; exact hbefore
  | succ length16 ih =>
      intro position hlength hbefore
      have hscan := bitScanForward_compareMask character ((string.drop position).take 8)
      have hfirst := first_findIdx? (· == character) ((string.drop position).take 8)
      have hblock : ((string.drop position).take 8).length = 8 := by
        rw [List.length_take, List.length_drop]
        omega
      have hat : ∀ j < 8, At (· == character) ((string.drop position).take 8) j ↔
          At (· == character) string (position + j) := fun j hj => (at_take hj).trans at_drop
      have hpassed : ∀ k ≤ 8, (∀ j < k, ¬ At (· == character) ((string.drop position).take 8) j) →
          ∀ j < position + k, ¬ At (· == character) string j := by
        intro k hk hno j hj
        by_cases hlow : j < position
        · exact hbefore j hlow
        · have h := (hat (j - position) (by omega)).not.mp (hno (j - position) (by omega))
          rwa [Nat.add_sub_cancel' (by omega)] at h
      rw [hblock, ← hscan] at hfirst
      rw [findCharBlocks]
      cases hindex : bitScanForward (compareMask character ((string.drop position).take 8)) with
      | none =>
          rw [hindex] at hfirst
          have hrest := ih (position + 8) (by omega) (hpassed 8 le_rfl hfirst)
          rw [List.drop_drop]
          rwa [show position + 8 + length16 * 8 = position + (length16 + 1) * 8 by omega] at hrest
      | some index =>
          rw [hindex] at hfirst
          obtain ⟨hlt, hmatch, hno⟩ := hfirst
          dsimp only at hlt hmatch hno
          have hplace : (2 * string.length - (length16 + 1) * 16) / 2 - 2 * string.length / 2 % 8 +
              index / 2 = position + index / 2 := by omega
          dsimp only
          rw [hplace]
          exact ⟨by omega, (hat _ hlt).mp hmatch, hpassed _ (by omega) hno⟩

/-- The search is left to the C runtime. -/
def UsesCString (processor : Processor) (string : PhStringRef) (ignoreCase : Bool) : Prop :=
  ignoreCase = false ∧ processor.hasIntrinsics = false ∧ string.hasBuffer = true

theorem isMatch_false (character : WChar) :
    isMatch phUpcaseUnicodeChar false character = (· == character) := rfl

theorem findCharRest_all (p : WChar → Bool) (string : List WChar) :
    First (At p string) string.length
      (findCharRest (2 * string.length) p string.length string) := by
  have h := findCharRest_first p string string.length le_rfl fun j hj => by omega
  rwa [Nat.sub_self, List.drop_zero] at h

theorem phFindCharInStringRef_first {string : PhStringRef} {ignoreCase : Bool}
    (h : ¬ UsesCString processor string ignoreCase) (character : WChar) :
    First (At (isMatch phUpcaseUnicodeChar ignoreCase character) string.chars) string.chars.length
      (phFindCharInStringRef processor phUpcaseUnicodeChar string character ignoreCase) := by
  have hhalf : 2 * string.chars.length / 2 = string.chars.length :=
    Nat.mul_div_cancel_left _ (by decide)
  rw [phFindCharInStringRef]
  cases ignoreCase with
  | true =>
      simp only [if_pos, hhalf]
      exact findCharRest_all _ _
  | false =>
      rw [isMatch_false]
      by_cases hintrinsics : processor.hasIntrinsics = true
      · simp only [if_neg Bool.false_ne_true, if_pos hintrinsics, hhalf]
        have hblocks := findCharBlocks_first character string.chars (2 * string.chars.length / 16) 0
          (by omega) fun j hj => by omega
        rw [Nat.zero_add, List.drop_zero] at hblocks
        cases hfound : findCharBlocks (2 * string.chars.length) character
            (2 * string.chars.length / 16) string.chars with
        | some index =>
            rw [hfound] at hblocks
            exact ⟨by have := hblocks.1; omega, hblocks.2⟩
        | none =>
            rw [hfound] at hblocks
            have hrest := findCharRest_first (· == character) string.chars
              (string.chars.length % 8) (Nat.mod_le _ _) fun j hj => hblocks j (by omega)
            rwa [show string.chars.length - string.chars.length % 8 =
              2 * string.chars.length / 16 * 8 by omega] at hrest
      · simp only [if_neg Bool.false_ne_true, if_neg hintrinsics, hhalf]
        have hbuffer : ¬ string.hasBuffer = true := fun hb =>
          h ⟨rfl, Bool.eq_false_iff.mpr hintrinsics, hb⟩
        rw [if_neg hbuffer]
        exact findCharRest_all _ _

/-! ## The last character -/

theorem findLastCharRest_last (p : WChar → Bool) (string : List WChar) : ∀ length,
    length ≤ string.length →
    Last (At p string) length (findLastCharRest string p length) := by
  intro length
  induction length with
  | zero => intro _ j hj; omega
  | succ length ih =>
      intro hle
      have hat := at_iff (p := p) (show length < string.length by omega)
      rw [findLastCharRest, List.getD_eq_getElem _ _ (show length < string.length by omega)]
      by_cases hmatch : p string[length] = true
      · rw [if_pos hmatch]
        exact ⟨Nat.lt_succ_self _, hat.mpr hmatch, fun j hij hj => by omega⟩
      · rw [if_neg hmatch]
        refine (ih (by omega)).extend (Nat.le_succ _) fun j hge hj => ?_
        obtain rfl : j = length := by omega
        exact fun h => hmatch (hat.mp h)

theorem findLastCharBlocks_last (character : WChar) (string : List WChar) (length : Nat) :
    ∀ length16, length + length16 * 8 ≤ string.length →
    match findLastCharBlocks string character length length16 (length + length16 * 8) with
    | some index => Last (At (· == character) string) (length + length16 * 8) (some index)
    | none => ∀ j, length ≤ j → j < length + length16 * 8 → ¬ At (· == character) string j := by
  intro length16
  induction length16 with
  | zero => intro _ j hge hj; omega
  | succ length16 ih =>
      intro hle
      have hstart : length + (length16 + 1) * 8 - 8 = length + length16 * 8 := by omega
      rw [findLastCharBlocks, hstart]
      have hscan := bitScanReverse_compareMask character
        ((string.drop (length + length16 * 8)).take 8)
      have hlast := last_findIdx?_reverse (· == character)
        ((string.drop (length + length16 * 8)).take 8)
      have hblock : ((string.drop (length + length16 * 8)).take 8).length = 8 := by
        rw [List.length_take, List.length_drop]
        omega
      have hat : ∀ j, length + length16 * 8 ≤ j → j < length + (length16 + 1) * 8 →
          (At (· == character) ((string.drop (length + length16 * 8)).take 8)
            (j - (length + length16 * 8)) ↔ At (· == character) string j) := by
        intro j hge hj
        have h := (at_take (p := (· == character)) (l := string.drop (length + length16 * 8))
          (show j - (length + length16 * 8) < 8 by omega)).trans at_drop
        rwa [Nat.add_sub_cancel' hge] at h
      rw [← hscan, hblock] at hlast
      cases hindex : bitScanReverse
          (compareMask character ((string.drop (length + length16 * 8)).take 8)) with
      | none =>
          rw [hindex] at hlast
          have hrest := ih (by omega)
          have hno : ∀ j, length + length16 * 8 ≤ j → j < length + (length16 + 1) * 8 →
              ¬ At (· == character) string j := fun j hge hj =>
            (hat j hge hj).not.mp (hlast _ (by omega))
          dsimp only
          cases hfound : findLastCharBlocks string character length length16
              (length + length16 * 8) with
          | none =>
              rw [hfound] at hrest
              intro j hge hj
              by_cases hlow : j < length + length16 * 8
              · exact hrest j hge hlow
              · exact hno j (by omega) hj
          | some index =>
              rw [hfound] at hrest
              exact Last.extend hrest (by omega) hno
      | some index =>
          rw [hindex] at hlast
          obtain ⟨hlt, hmatch, hno⟩ := hlast
          dsimp only at hlt hmatch hno ⊢
          have hplace : length16 * 16 / 2 + length + index / 2 =
              length + length16 * 8 + index / 2 := by omega
          rw [hplace]
          refine ⟨by omega, ?_, fun j hij hj => ?_⟩
          · refine (hat _ (by omega) (by omega)).mp ?_
            rwa [Nat.add_sub_cancel_left]
          · exact (hat j (by omega) hj).not.mp (hno _ (by omega) (by omega))

theorem phFindLastCharInStringRef_last {string : PhStringRef} {ignoreCase : Bool}
    (h : ¬ UsesCString processor string ignoreCase) (character : WChar) :
    Last (At (isMatch phUpcaseUnicodeChar ignoreCase character) string.chars) string.chars.length
      (phFindLastCharInStringRef processor phUpcaseUnicodeChar string character ignoreCase) := by
  have hhalf : 2 * string.chars.length / 2 = string.chars.length :=
    Nat.mul_div_cancel_left _ (by decide)
  rw [phFindLastCharInStringRef]
  cases ignoreCase with
  | true =>
      simp only [if_pos, hhalf]
      exact findLastCharRest_last _ _ _ le_rfl
  | false =>
      rw [isMatch_false]
      by_cases hintrinsics : processor.hasIntrinsics = true
      · simp only [if_neg Bool.false_ne_true, if_pos hintrinsics, hhalf]
        have hsize : string.chars.length % 8 + 2 * string.chars.length / 16 * 8 =
            string.chars.length := by omega
        have hblocks := findLastCharBlocks_last character string.chars (string.chars.length % 8)
          (2 * string.chars.length / 16) (by omega)
        rw [hsize] at hblocks
        cases hfound : findLastCharBlocks string.chars character (string.chars.length % 8)
            (2 * string.chars.length / 16) string.chars.length with
        | some index =>
            rw [hfound] at hblocks
            exact hblocks
        | none =>
            rw [hfound] at hblocks
            exact (findLastCharRest_last (· == character) string.chars _ (Nat.mod_le _ _)).extend
              (Nat.mod_le _ _) hblocks
      · simp only [if_neg Bool.false_ne_true, if_neg hintrinsics, hhalf]
        have hbuffer : ¬ string.hasBuffer = true := fun hb =>
          h ⟨rfl, Bool.eq_false_iff.mpr hintrinsics, hb⟩
        rw [if_neg hbuffer]
        exact findLastCharRest_last _ _ _ le_rfl

/-! ## A substring -/

/-- The substring stands at the place. -/
def OccursAt (phUpcaseUnicodeChar : WChar → WChar) (ignoreCase : Bool)
    (string subString : List WChar) (i : Nat) : Prop :=
  ((string.drop i).take subString.length).map (foldChar phUpcaseUnicodeChar ignoreCase) =
    subString.map (foldChar phUpcaseUnicodeChar ignoreCase)

theorem OccursAt.length_le {ignoreCase : Bool} {string subString : List WChar} {i : Nat}
    (h : OccursAt phUpcaseUnicodeChar ignoreCase string subString i) :
    subString = [] ∨ i + subString.length ≤ string.length := by
  have hlength := congrArg List.length h
  rw [List.length_map, List.length_map, List.length_take, List.length_drop] at hlength
  cases subString with
  | nil => exact Or.inl rfl
  | cons c rest =>
      rw [List.length_cons] at hlength ⊢
      exact Or.inr (by omega)

theorem findStringLoop_first (ignoreCase : Bool) (string : List WChar) (c : WChar)
    (rest : List WChar) : ∀ i position, position + i + rest.length ≤ string.length →
    (∀ j < position, ¬ OccursAt phUpcaseUnicodeChar ignoreCase string (c :: rest) j) →
    First (OccursAt phUpcaseUnicodeChar ignoreCase string (c :: rest)) (position + i)
      (findStringLoop processor phUpcaseUnicodeChar ignoreCase
        (foldChar phUpcaseUnicodeChar ignoreCase c) rest i position (string.drop position)) := by
  intro i
  induction i with
  | zero => intro position _ hbefore; exact hbefore
  | succ i ih =>
      intro position hle hbefore
      have hlt : position < string.length := by omega
      have hat : OccursAt phUpcaseUnicodeChar ignoreCase string (c :: rest) position ↔
          foldChar phUpcaseUnicodeChar ignoreCase string[position] =
              foldChar phUpcaseUnicodeChar ignoreCase c ∧
            phEqualStringRef processor phUpcaseUnicodeChar
              ((string.drop (position + 1)).take rest.length) rest ignoreCase = true := by
        rw [OccursAt, List.drop_eq_getElem_cons hlt, List.length_cons, List.take_succ_cons,
          List.map_cons, List.map_cons, List.cons.injEq, phEqualStringRef_iff]
      rw [findStringLoop, List.drop_eq_getElem_cons hlt, List.headD_cons, List.tail_cons]
      rw [← foldChar]
      by_cases hmatch : foldChar phUpcaseUnicodeChar ignoreCase string[position] =
              foldChar phUpcaseUnicodeChar ignoreCase c ∧
            phEqualStringRef processor phUpcaseUnicodeChar
              ((string.drop (position + 1)).take rest.length) rest ignoreCase = true
      · rw [if_pos hmatch]
        exact ⟨by omega, hat.mpr hmatch, hbefore⟩
      · rw [if_neg hmatch]
        have hnext := ih (position + 1) (by omega) fun j hj => ?_
        · rwa [show position + 1 + i = position + (i + 1) by omega] at hnext
        · rcases Nat.lt_or_eq_of_le (Nat.le_of_lt_succ hj) with hlow | rfl
          · exact hbefore j hlow
          · exact fun h => hmatch (hat.mp h)

theorem phFindStringInStringRef_first (string subString : List WChar) (ignoreCase : Bool) :
    First (OccursAt phUpcaseUnicodeChar ignoreCase string subString) (string.length + 1)
      (phFindStringInStringRef processor phUpcaseUnicodeChar string subString ignoreCase) := by
  rw [phFindStringInStringRef.eq_def]
  by_cases hlength : string.length < subString.length
  · rw [if_pos hlength]
    intro j _ hoccurs
    rcases hoccurs.length_le with rfl | hle
    · exact absurd hlength (Nat.not_lt_zero _)
    · omega
  · rw [if_neg hlength]
    cases subString with
    | nil => exact ⟨Nat.succ_pos _, rfl, fun j hj => absurd hj (Nat.not_lt_zero j)⟩
    | cons c rest =>
        rw [List.length_cons] at hlength
        have hloop := @findStringLoop_first processor phUpcaseUnicodeChar ignoreCase string c rest
          (string.length - (rest.length + 1) + 1) 0 (by omega) fun j hj => absurd hj (Nat.not_lt_zero j)
        rw [List.drop_zero] at hloop
        refine hloop.extend (by omega) fun j hge _ hoccurs => ?_
        rcases hoccurs.length_le with hnil | hle
        · exact List.cons_ne_nil _ _ hnil
        · rw [List.length_cons] at hle
          omega

/-! ## C strings -/

/-- Where the C string and the counted string differ: behind the first null character of the
counted string or, when it has none, behind its end. -/
def hiddenChars (string : PhStringRef) : List WChar :=
  match string.chars.dropWhile (· ≠ 0) with
  | [] => string.after.takeWhile (· ≠ 0) ++ [0]
  | _ :: rest => rest

/-- The C string that stands at the buffer, with its terminator. -/
def cStringAt (string : PhStringRef) : List WChar :=
  (string.chars ++ string.after).takeWhile (· ≠ 0) ++ [0]

theorem cStringAt_cases (string : PhStringRef) :
    cStringAt string ++ hiddenChars string = string.chars ∨
      cStringAt string = string.chars ++ hiddenChars string := by
  have hsplit := List.takeWhile_append_dropWhile (p := (· ≠ 0)) (l := string.chars)
  rw [cStringAt, hiddenChars]
  cases hdrop : string.chars.dropWhile (· ≠ 0) with
  | nil =>
      rw [hdrop, List.append_nil] at hsplit
      have hall : ∀ c ∈ string.chars, decide (c ≠ 0) = true := List.takeWhile_eq_self_iff.mp hsplit
      right
      rw [List.takeWhile_append_of_pos hall, List.append_assoc]
  | cons c rest =>
      left
      have hzero : c = 0 := by
        have hno := List.head_dropWhile_not (· ≠ (0 : WChar)) (l := string.chars)
          (by rw [hdrop]; exact List.cons_ne_nil _ _)
        simp only [hdrop, List.head_cons] at hno
        simpa using hno
      have hall : ∀ d ∈ string.chars.takeWhile (· ≠ 0), decide (d ≠ 0) = true := fun d hd =>
        List.mem_takeWhile_imp (p := fun d => decide (d ≠ 0)) hd
      have htake : (string.chars ++ string.after).takeWhile (· ≠ 0) =
          string.chars.takeWhile (· ≠ 0) := by
        conv_lhs => rw [← hsplit, hdrop, hzero, List.append_assoc]
        rw [List.takeWhile_append_of_pos hall]
        simp
      rw [htake, List.append_assoc]
      conv_rhs => rw [← hsplit, hdrop, hzero]
      rfl

theorem wcschr_first (string : PhStringRef) (character : WChar) :
    First (At (· == character) (cStringAt string)) (cStringAt string).length
      (wcschr (string.chars ++ string.after) character) :=
  first_findIdx? _ _

theorem wcsrchr_last (string : PhStringRef) (character : WChar) :
    Last (At (· == character) (cStringAt string)) (cStringAt string).length
      (wcsrchr (string.chars ++ string.after) character) :=
  last_findIdx?_reverse _ _

theorem cString_finds_iff (string : PhStringRef) (character : WChar) :
    (First (At (· == character) string.chars) string.chars.length
        (wcschr (string.chars ++ string.after) character) ∧
      Last (At (· == character) string.chars) string.chars.length
        (wcsrchr (string.chars ++ string.after) character)) ↔
      character ∉ hiddenChars string := by
  have hfirst := wcschr_first string character
  have hlast := wcsrchr_last string character
  have hmem : (∀ c ∈ hiddenChars string, (c == character) = false) ↔
      character ∉ hiddenChars string := by
    constructor
    · exact fun h hin => absurd (h character hin) (by rw [beq_self_eq_true]; exact Bool.noConfusion)
    · exact fun h c hc => beq_eq_false_iff_ne.mpr fun heq => h (heq ▸ hc)
  rw [← hmem]
  generalize wcschr (string.chars ++ string.after) character = r at hfirst ⊢
  generalize wcsrchr (string.chars ++ string.after) character = r' at hlast ⊢
  rcases cStringAt_cases string with hcases | hcases
  · rw [← hcases]
    constructor
    · exact fun h => not_match_of_last hlast h.2
    · exact fun h => ⟨(first_append_iff h).mpr hfirst, (last_append_iff h).mpr hlast⟩
  · rw [hcases] at hfirst hlast
    constructor
    · exact fun h => not_match_of_last h.2 hlast
    · exact fun h => ⟨(first_append_iff h).mp hfirst, (last_append_iff h).mp hlast⟩

theorem phFindCharInStringRef_visible {string : PhStringRef} {character : WChar}
    (h : character ∉ hiddenChars string) :
    First (At (· == character) string.chars) string.chars.length
      (phFindCharInStringRef processor phUpcaseUnicodeChar string character false) := by
  by_cases huses : UsesCString processor string false
  · obtain ⟨-, hintrinsics, hbuffer⟩ := huses
    have hfind : phFindCharInStringRef processor phUpcaseUnicodeChar string character false =
        wcschr (string.chars ++ string.after) character := by
      simp only [phFindCharInStringRef, hintrinsics, hbuffer, if_neg Bool.false_ne_true, if_pos]
    rw [hfind]
    exact ((cString_finds_iff string character).mpr h).1
  · exact phFindCharInStringRef_first huses character

theorem phSplitStringRefAtChar_eq {separator : WChar} {first second : List WChar}
    (hfirst : separator ∉ first) (hzero : 0 ∉ first ++ separator :: second) :
    phSplitStringRefAtChar processor phUpcaseUnicodeChar (first ++ separator :: second) separator =
      some (first, second) := by
  have hvisible : separator ∉ hiddenChars (.ofChars (first ++ separator :: second)) := by
    have hdrop : (first ++ separator :: second).dropWhile (· ≠ 0) = [] :=
      List.dropWhile_eq_nil_iff.mpr fun c hc => decide_eq_true fun h => hzero (h ▸ hc)
    rw [hiddenChars, PhStringRef.ofChars]
    simp only [hdrop, List.takeWhile_nil, List.nil_append, List.mem_singleton]
    rintro rfl
    exact hzero (List.mem_append_right _ List.mem_cons_self)
  have hplace : First (At (· == separator) (first ++ separator :: second))
      (first ++ separator :: second).length (some first.length) := by
    have hlt : first.length < (first ++ separator :: second).length := by
      rw [List.length_append, List.length_cons]
      omega
    refine ⟨hlt, (at_iff hlt).mpr ?_, fun j hj => ?_⟩
    · rw [List.getElem_append_right le_rfl]
      simp
    · rw [at_append_left hj]
      rintro ⟨c, hc, heq⟩
      exact hfirst (beq_iff_eq.mp heq ▸ List.mem_of_getElem? hc)
  have hindex := (@phFindCharInStringRef_visible processor phUpcaseUnicodeChar _ _
    hvisible).unique hplace
  rw [phSplitStringRefAtChar, hindex]
  simp only [List.take_left, List.drop_append, Nat.add_sub_cancel_left]
  simp

/-! ## All of them together -/

def SearchesAgree (processor : Processor) (phUpcaseUnicodeChar : WChar → WChar)
    (string subString : PhStringRef) (character : WChar) (ignoreCase : Bool) : Prop :=
  (phEqualStringRef processor phUpcaseUnicodeChar string.chars subString.chars ignoreCase = true ↔
      string.chars.map (foldChar phUpcaseUnicodeChar ignoreCase) =
        subString.chars.map (foldChar phUpcaseUnicodeChar ignoreCase)) ∧
    First (At (isMatch phUpcaseUnicodeChar ignoreCase character) string.chars) string.chars.length
      (phFindCharInStringRef processor phUpcaseUnicodeChar string character ignoreCase) ∧
    Last (At (isMatch phUpcaseUnicodeChar ignoreCase character) string.chars) string.chars.length
      (phFindLastCharInStringRef processor phUpcaseUnicodeChar string character ignoreCase) ∧
    First (OccursAt phUpcaseUnicodeChar ignoreCase string.chars subString.chars)
      (string.chars.length + 1)
      (phFindStringInStringRef processor phUpcaseUnicodeChar string.chars subString.chars
        ignoreCase)

/-- The comparison and the searches are right exactly when none is left to the C runtime, or the
character is not among those that the counted string or the C string has and the other has not. -/
theorem phStringRef_searchesAgree (processor : Processor) (phUpcaseUnicodeChar : WChar → WChar)
    (string subString : PhStringRef) (character : WChar) (ignoreCase : Bool) :
    SearchesAgree processor phUpcaseUnicodeChar string subString character ignoreCase ↔
      ¬ UsesCString processor string ignoreCase ∨ character ∉ hiddenChars string := by
  have hequal := @phEqualStringRef_iff processor phUpcaseUnicodeChar string.chars
    subString.chars ignoreCase
  have hstring := @phFindStringInStringRef_first processor phUpcaseUnicodeChar string.chars
    subString.chars ignoreCase
  by_cases huses : UsesCString processor string ignoreCase
  · obtain ⟨rfl, hintrinsics, hbuffer⟩ := huses
    have hfind : phFindCharInStringRef processor phUpcaseUnicodeChar string character false =
        wcschr (string.chars ++ string.after) character := by
      simp only [phFindCharInStringRef, hintrinsics, hbuffer, if_neg Bool.false_ne_true, if_pos]
    have hfindLast : phFindLastCharInStringRef processor phUpcaseUnicodeChar string character false =
        wcsrchr (string.chars ++ string.after) character := by
      simp only [phFindLastCharInStringRef, hintrinsics, hbuffer, if_neg Bool.false_ne_true, if_pos]
    rw [or_iff_right (not_not.mpr ⟨rfl, hintrinsics, hbuffer⟩), ← cString_finds_iff,
      SearchesAgree, hfind, hfindLast, isMatch_false]
    exact ⟨fun h => ⟨h.2.1, h.2.2.1⟩, fun h => ⟨hequal, h.1, h.2, hstring⟩⟩
  · exact iff_of_true
      ⟨hequal, phFindCharInStringRef_first huses character,
        phFindLastCharInStringRef_last huses character, hstring⟩ (Or.inl huses)

/-- Without intrinsics a character behind the end of `A` is found, at an index outside. -/
theorem phStringRef_searchesDiffer :
    ¬ SearchesAgree ⟨false, false⟩ id ⟨true, [0x41], [0x42], fun h => absurd h (by decide)⟩
      (.ofChars []) 0x42 false := by
  rintro ⟨-, hfirst, -⟩
  have hfound : phFindCharInStringRef ⟨false, false⟩ id
      ⟨true, [0x41], [0x42], fun h => absurd h (by decide)⟩ 0x42 false = some 1 := by
    decide +kernel
  rw [hfound] at hfirst
  exact absurd hfirst.1 (by decide)

end SystemInformer.PhLib
