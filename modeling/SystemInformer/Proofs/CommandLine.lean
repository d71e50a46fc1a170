import SystemInformer.Lib.Stretches
import SystemInformer.PhLib.CommandLine
import SystemInformer.Proofs.StringRef

/-!
# Parts of a command line, read and written

The rules for backslashes say what a stretch of them gives, by what follows it. The parser
counts a stretch and gives what the rules say when the next character is read; so it is right
up to stretches that do not fit a `ULONG`, and up to the last one, which no character follows
(`phParseCommandLinePart_followsRules`). The function that escapes a string counts in the same
way and loses the last stretch too, which is all that is lost of a string of less than `2 ^ 31`
characters when it is read back.

A whole command line is read item by item: an option that may have a value is pending until the
next item, or the end, shows whether it has one.
-/

namespace SystemInformer.PhLib

open Loops Stretches

/-! ## One part -/

/-- A part of a command line: the characters that it takes up, what they stand for, and what is
behind. -/
structure Part where
  text : List WChar
  value : List WChar
  rest : List WChar

def Part.cons (text value : List WChar) (part : Part) : Part :=
  ⟨text ++ part.text, value ++ part.value, part.rest⟩

/-- The first part by the rules: `2n` backslashes and a quotation mark give `n` backslashes, and
what is quoted begins or ends; `2n + 1` give `n` and a quotation mark; `n` backslashes in front
of something else, or of nothing, give `n`. -/
def partByRules (inQuote : Bool) (commandLine : List WChar) : Part :=
  let backslashes := commandLine.takeWhile (· == backslash)
  let n := backslashes.length
  match h : commandLine.dropWhile (· == backslash) with
  | [] => ⟨backslashes, backslashes, []⟩
  | c :: rest =>
      have : rest.length < commandLine.length := by
        have hle := (List.dropWhile_sublist (l := commandLine) (· == backslash)).length_le
        rw [h, List.length_cons] at hle
        exact hle
      if c = quotationMark then
        if n % 2 = 0 then
          (partByRules (!inQuote) rest).cons (backslashes ++ [c]) (List.replicate (n / 2) backslash)
        else
          (partByRules inQuote rest).cons (backslashes ++ [c])
            (List.replicate (n / 2) backslash ++ [c])
      else if c = space ∧ inQuote = false then ⟨backslashes, backslashes, c :: rest⟩
      else (partByRules inQuote rest).cons (backslashes ++ [c]) (backslashes ++ [c])
termination_by commandLine.length

variable {c : WChar} {q : Bool} {i n : Nat} {sb t : List WChar}

theorem partByRules_replicate (q : Bool) (n : Nat) :
    partByRules q (List.replicate n backslash) =
      ⟨List.replicate n backslash, List.replicate n backslash, []⟩ := by
  have htake : (List.replicate n backslash).takeWhile (· == backslash) =
      List.replicate n backslash := by simp
  have hdrop : (List.replicate n backslash).dropWhile (· == backslash) = [] := by simp
  rw [partByRules]
  split
  · rw [htake]
  · next hcons =>
      rw [hdrop] at hcons
      cases hcons

theorem partByRules_stretch (hc : c ≠ backslash) :
    partByRules q (List.replicate n backslash ++ c :: t) =
      if c = quotationMark then
        if n % 2 = 0 then
          (partByRules (!q) t).cons (List.replicate n backslash ++ [c])
            (List.replicate (n / 2) backslash)
        else
          (partByRules q t).cons (List.replicate n backslash ++ [c])
            (List.replicate (n / 2) backslash ++ [c])
      else if c = space ∧ q = false then
        ⟨List.replicate n backslash, List.replicate n backslash, c :: t⟩
      else
        (partByRules q t).cons (List.replicate n backslash ++ [c])
          (List.replicate n backslash ++ [c]) := by
  rw [partByRules]
  split
  · next hnil =>
      rw [dropWhile_stretch hc] at hnil
      cases hnil
  · next c' rest hcons =>
      rw [dropWhile_stretch hc, List.cons.injEq] at hcons
      obtain ⟨rfl, rfl⟩ := hcons
      rw [takeWhile_stretch hc, List.length_replicate]

theorem partByRules_append (q : Bool) (commandLine : List WChar) :
    (partByRules q commandLine).text ++ (partByRules q commandLine).rest = commandLine := by
  induction commandLine using Stretches.induction backslash generalizing q with
  | last n => rw [partByRules_replicate, List.append_nil]
  | next n c t hc ih =>
      rw [partByRules_stretch hc]
      split_ifs with hquote hn hspace
      · simp [Part.cons, ih]
      · simp [Part.cons, ih]
      · rfl
      · simp [Part.cons, ih]

/-! ## How the parser goes through a part -/

theorem parsePart_backslashes (n : Nat) (t : List WChar) (s : PartState) :
    untilStop parsePartChar (List.replicate n backslash ++ t) s =
      untilStop parsePartChar t
        { s with
          i := s.i + n, numberOfBackslashes := s.numberOfBackslashes + BitVec.ofNat 32 n } := by
  induction n generalizing s with
  | zero => simp
  | succ n ih =>
      rw [List.replicate_succ, List.cons_append, untilStop, parsePartChar, if_pos rfl]
      dsimp only
      rw [ih]
      congr 2
      · dsimp only
        omega
      · dsimp only
        rw [BitVec.add_assoc, Nat.add_comm n 1, BitVec.ofNat_add]
        rfl

theorem parsePart_quotationMark :
    untilStop parsePartChar (List.replicate n backslash ++ quotationMark :: t) ⟨i, sb, 0, q⟩ =
      untilStop parsePartChar t
        (if n % 2 = 0 then ⟨i + (n + 1), sb ++ List.replicate (n % 2 ^ 32 / 2) backslash, 0, !q⟩
        else
          ⟨i + (n + 1),
            sb ++ (List.replicate (n % 2 ^ 32 / 2) backslash ++ [quotationMark]), 0, q⟩) := by
  have hodd : BitVec.ofNat 32 n &&& 1 ≠ 0 ↔ ¬ n % 2 = 0 := by
    have hone : BitVec.toNat (1 : ULong) = 1 := rfl
    rw [not_iff_not, ← BitVec.toNat_inj, BitVec.toNat_and, BitVec.toNat_ofNat, hone,
      Nat.and_one_is_mod]
    simp
  rw [parsePart_backslashes, untilStop, parsePartChar, if_neg (by decide), if_pos rfl]
  dsimp only
  rw [zero_add]
  by_cases hn : n % 2 = 0
  · rw [if_neg (hodd.not_left.mpr hn), if_pos hn]
    simp [Nat.add_assoc]
  · rw [if_pos (hodd.mpr hn), if_neg hn]
    simp [Nat.add_assoc]

theorem parsePart_stretch (hc : c ≠ backslash) (hquote : c ≠ quotationMark) :
    untilStop parsePartChar (List.replicate n backslash ++ c :: t) ⟨i, sb, 0, q⟩ =
      if c = space ∧ q = false then
        (true, ⟨i + n, sb ++ List.replicate (n % 2 ^ 32) backslash, 0, q⟩)
      else
        untilStop parsePartChar t
          ⟨i + (n + 1), sb ++ (List.replicate (n % 2 ^ 32) backslash ++ [c]), 0, q⟩ := by
  rw [parsePart_backslashes, untilStop, parsePartChar, if_neg hc, if_neg hquote]
  dsimp only
  rw [zero_add, BitVec.toNat_ofNat]
  by_cases hspace : c = space ∧ q = false
  · rw [if_pos hspace, if_pos hspace]
  · rw [if_neg hspace, if_neg hspace, Nat.add_assoc, List.append_assoc]

/-- A piece is read as it is when `ok` says so, and with characters missing otherwise. -/
def ReadAs (ok : Prop) (value' value : List WChar) : Prop :=
  ok ∧ value' = value ∨ ¬ ok ∧ value'.length < value.length

theorem ReadAs.eq_iff {ok : Prop} {value' value : List WChar} (h : ReadAs ok value' value) :
    value' = value ↔ ok := by
  rcases h with ⟨hok, rfl⟩ | ⟨hok, hlt⟩
  · exact iff_of_true rfl hok
  · refine iff_of_false ?_ hok
    rintro rfl
    exact lt_irrefl _ hlt

theorem ReadAs.append {ok₁ ok₂ : Prop} {value₁' value₁ value₂' value₂ : List WChar}
    (h₁ : ReadAs ok₁ value₁' value₁) (h₂ : ReadAs ok₂ value₂' value₂) :
    ReadAs (ok₁ ∧ ok₂) (value₁' ++ value₂') (value₁ ++ value₂) := by
  simp only [ReadAs, List.length_append]
  rcases h₁ with ⟨hok₁, rfl⟩ | ⟨hok₁, hlt₁⟩ <;> rcases h₂ with ⟨hok₂, rfl⟩ | ⟨hok₂, hlt₂⟩
  · exact .inl ⟨⟨hok₁, hok₂⟩, rfl⟩
  · exact .inr ⟨fun h => hok₂ h.2, by omega⟩
  · exact .inr ⟨fun h => hok₁ h.1, by omega⟩
  · exact .inr ⟨fun h => hok₁ h.1, by omega⟩

theorem readAs_replicate {f : Nat → Nat} (hf : n < 2 ^ 32 ∨ f (n % 2 ^ 32) < f n) :
    ReadAs (n < 2 ^ 32) (List.replicate (f (n % 2 ^ 32)) backslash)
      (List.replicate (f n) backslash) := by
  by_cases hn : n < 2 ^ 32
  · exact .inl ⟨hn, by rw [Nat.mod_eq_of_lt hn]⟩
  · refine .inr ⟨hn, ?_⟩
    rw [List.length_replicate, List.length_replicate]
    exact hf.resolve_left hn

/-- The parser loses no backslash: no stretch is longer than its counter counts, and the command
line does not end behind one. -/
def Part.KeepsBackslashes (part : Part) : Prop :=
  (∀ n, List.replicate n backslash <:+: part.text → n < 2 ^ 32) ∧
    (part.rest = [] → part.text.getLast? ≠ some backslash)

theorem keepsBackslashes_cons (hc : c ≠ backslash) (value : List WChar) (part : Part) :
    (part.cons (List.replicate n backslash ++ [c]) value).KeepsBackslashes ↔
      n < 2 ^ 32 ∧ part.KeepsBackslashes := by
  rw [Part.KeepsBackslashes, Part.cons, List.append_assoc, List.singleton_append]
  simp only [replicate_infix_iff hc, ne_eq, getLast?_stretch hc]
  constructor
  · rintro ⟨hall, hlast⟩
    exact ⟨hall n (.inl le_rfl), fun m hm => hall m (.inr hm), hlast⟩
  · rintro ⟨hn, hall, hlast⟩
    refine ⟨fun m hm => ?_, hlast⟩
    rcases hm with hm | hm
    · exact lt_of_le_of_lt hm hn
    · exact hall m hm

theorem keepsBackslashes_space (value : List WChar) :
    Part.KeepsBackslashes ⟨List.replicate n backslash, value, c :: t⟩ ↔ n < 2 ^ 32 := by
  refine ⟨fun h => h.1 n List.infix_rfl, fun hn => ⟨fun m hm => ?_, fun h => by cases h⟩⟩
  have hle := hm.length_le
  rw [List.length_replicate, List.length_replicate] at hle
  exact lt_of_le_of_lt hle hn

theorem keepsBackslashes_end (value : List WChar) :
    Part.KeepsBackslashes ⟨List.replicate n backslash, value, []⟩ ↔ n = 0 := by
  constructor
  · intro h
    cases n with
    | zero => rfl
    | succ n => exact absurd (by simp [List.replicate_succ']) (h.2 rfl)
  · rintro rfl
    refine ⟨fun m hm => ?_, fun _ => by simp⟩
    have hle := hm.length_le
    rw [List.length_replicate, List.length_replicate] at hle
    omega

/-- From this state on the parser takes up the characters that it should, and gives what it
should as long as it loses no backslash. -/
def ReadsPart (q : Bool) (i : Nat) (sb commandLine : List WChar) : Prop :=
  let part := partByRules q commandLine
  ∃ value numberOfBackslashes q' stop,
    untilStop parsePartChar commandLine ⟨i, sb, 0, q⟩ =
      (stop, ⟨i + part.text.length, sb ++ value, numberOfBackslashes, q'⟩) ∧
    ReadAs part.KeepsBackslashes value part.value

theorem ReadsPart.cons {q' : Bool} {value' value : List WChar} (hc : c ≠ backslash)
    (hrest : ReadsPart q' (i + (n + 1)) (sb ++ value') t)
    (hread : ReadAs (n < 2 ^ 32) value' value)
    (hparse : untilStop parsePartChar (List.replicate n backslash ++ c :: t) ⟨i, sb, 0, q⟩ =
      untilStop parsePartChar t ⟨i + (n + 1), sb ++ value', 0, q'⟩)
    (hrules : partByRules q (List.replicate n backslash ++ c :: t) =
      (partByRules q' t).cons (List.replicate n backslash ++ [c]) value) :
    ReadsPart q i sb (List.replicate n backslash ++ c :: t) := by
  obtain ⟨rest, numberOfBackslashes, q'', stop, hrest, hreadRest⟩ := hrest
  refine ⟨value' ++ rest, numberOfBackslashes, q'', stop, ?_, ?_⟩
  · have hlength : i + (n + 1) + (partByRules q' t).text.length =
        i + (List.replicate n backslash ++ [c] ++ (partByRules q' t).text).length := by
      rw [List.length_append, List.length_append, List.length_replicate, List.length_singleton]
      omega
    rw [hparse, hrest, hrules, List.append_assoc, hlength]
    rfl
  · rw [hrules, keepsBackslashes_cons hc]
    exact hread.append hreadRest

theorem readsPart (q : Bool) (i : Nat) (sb commandLine : List WChar) :
    ReadsPart q i sb commandLine := by
  induction commandLine using Stretches.induction backslash generalizing q i sb with
  | last n =>
      rw [ReadsPart, partByRules_replicate]
      dsimp only
      rw [keepsBackslashes_end, ← List.append_nil (List.replicate n backslash),
        parsePart_backslashes, untilStop, List.append_nil, List.length_replicate]
      refine ⟨[], 0 + BitVec.ofNat 32 n, q, false, by rw [List.append_nil], ?_⟩
      rw [ReadAs, List.length_replicate, List.length_nil]
      cases n with
      | zero => exact .inl ⟨rfl, rfl⟩
      | succ n => exact .inr ⟨n.succ_ne_zero, n.succ_pos⟩
  | next n c t hc ih =>
      have hrules := partByRules_stretch (q := q) (n := n) (t := t) hc
      by_cases hquote : c = quotationMark
      · subst hquote
        have hparse := @parsePart_quotationMark q i n sb t
        have hhalf := readAs_replicate (n := n) (f := (· / 2)) (by omega)
        rw [if_pos rfl] at hrules
        by_cases hn : n % 2 = 0
        · rw [if_pos hn] at hrules hparse
          exact .cons hc (ih _ _ _) hhalf hparse hrules
        · rw [if_neg hn] at hrules hparse
          have hmark : ReadAs True [quotationMark] [quotationMark] := .inl ⟨trivial, rfl⟩
          have hread := hhalf.append hmark
          rw [and_true] at hread
          exact .cons hc (ih _ _ _) hread hparse hrules
      · have hparse := @parsePart_stretch _ q i n sb t hc hquote
        have hwhole := readAs_replicate (n := n) (f := id) (by simp only [id]; omega)
        rw [if_neg hquote] at hrules
        by_cases hspace : c = space ∧ q = false
        · rw [if_pos hspace] at hrules hparse
          rw [ReadsPart, hrules]
          dsimp only
          rw [hparse, keepsBackslashes_space, List.length_replicate]
          exact ⟨_, _, _, _, rfl, hwhole⟩
        · rw [if_neg hspace] at hrules hparse
          have hchar : ReadAs True [c] [c] := .inl ⟨trivial, rfl⟩
          have hread := hwhole.append hchar
          rw [and_true] at hread
          exact .cons hc (ih _ _ _) hread hparse hrules

/-- The parser returns what the rules say, and leaves the index where they say, exactly when it
loses no backslash. -/
theorem phParseCommandLinePart_followsRules (commandLine : List WChar) (index : Nat) :
    let part := partByRules false (commandLine.drop index)
    part.text ++ part.rest = commandLine.drop index ∧
      (phParseCommandLinePart commandLine index = (part.value, index + part.text.length) ↔
        part.KeepsBackslashes) := by
  obtain ⟨value, numberOfBackslashes, q', stop, hparse, hread⟩ :=
    readsPart false index [] (commandLine.drop index)
  refine ⟨partByRules_append _ _, ?_⟩
  rw [phParseCommandLinePart, hparse, ← hread.eq_iff]
  simp

theorem phParseCommandLinePart_loses :
    let commandLine := [backslash]
    let part := partByRules false commandLine
    phParseCommandLinePart commandLine 0 ≠ (part.value, 0 + part.text.length) := by
  have hrules := partByRules_replicate false 1
  rw [List.replicate_one] at hrules
  dsimp only
  rw [hrules]
  decide

/-! ## Escaping -/

/-- What the loop of `PhEscapeCommandLinePart` writes. -/
def escaped (string : List WChar) : List WChar :=
  (string.foldl escapeChar ⟨[], 0⟩).stringBuilder

theorem escape_backslashes (n : Nat) (s : EscapeState) :
    (List.replicate n backslash).foldl escapeChar s =
      ⟨s.stringBuilder, s.numberOfBackslashes + BitVec.ofNat 32 n⟩ := by
  induction n generalizing s with
  | zero => simp
  | succ n ih =>
      rw [List.replicate_succ, List.foldl_cons, ih, escapeChar, if_pos rfl]
      dsimp only
      rw [BitVec.add_assoc, Nat.add_comm n 1, BitVec.ofNat_add]
      rfl

theorem escape_stretch (hc : c ≠ backslash) :
    (List.replicate n backslash ++ c :: t).foldl escapeChar ⟨sb, 0⟩ =
      t.foldl escapeChar
        ⟨sb ++ if c = quotationMark then
            List.replicate (2 * (n % 2 ^ 32) + 1) backslash ++ [quotationMark]
          else List.replicate (n % 2 ^ 32) backslash ++ [c], 0⟩ := by
  rw [List.foldl_append, escape_backslashes, List.foldl_cons, escapeChar, if_neg hc]
  dsimp only
  rw [zero_add, BitVec.toNat_ofNat]
  by_cases hquote : c = quotationMark
  · rw [if_pos hquote, if_pos hquote, List.replicate_succ', Nat.mul_comm, List.append_assoc,
      List.append_assoc]
    rfl
  · rw [if_neg hquote, if_neg hquote, List.append_assoc]

theorem stringBuilder_foldl_escapeChar (sb string : List WChar) :
    (string.foldl escapeChar ⟨sb, 0⟩).stringBuilder = sb ++ escaped string := by
  rw [escaped]
  induction string using Stretches.induction backslash generalizing sb with
  | last n =>
      rw [escape_backslashes, escape_backslashes]
      exact (List.append_nil sb).symm
  | next n c t hc ih =>
      rw [escape_stretch hc, escape_stretch hc, ih (sb ++ _), ih ([] ++ _), List.nil_append,
        List.append_assoc]

theorem escaped_replicate (n : Nat) : escaped (List.replicate n backslash) = [] := by
  rw [escaped, escape_backslashes]

theorem escaped_stretch (hc : c ≠ backslash) :
    escaped (List.replicate n backslash ++ c :: t) =
      (if c = quotationMark then
          List.replicate (2 * (n % 2 ^ 32) + 1) backslash ++ [quotationMark]
        else List.replicate (n % 2 ^ 32) backslash ++ [c]) ++ escaped t := by
  rw [escaped, escape_stretch hc, stringBuilder_foldl_escapeChar, List.nil_append]

/-- What was escaped is read back up to the closing quotation mark, without the backslashes at
its end. -/
theorem parsePart_escaped {string : List WChar} (hlength : string.length < 2 ^ 31) :
    untilStop parsePartChar (escaped string ++ quotationMark :: t) ⟨i, sb, 0, true⟩ =
      untilStop parsePartChar t
        ⟨i + ((escaped string).length + 1), sb ++ string.rdropWhile (· == backslash), 0,
          false⟩ := by
  induction string using Stretches.induction backslash generalizing i sb with
  | last n =>
      have hquote := @parsePart_quotationMark true i 0 sb t
      rw [escaped_replicate, rdropWhile_replicate]
      exact hquote
  | next n c s hc ih =>
      rw [List.length_append, List.length_replicate, List.length_cons] at hlength
      have hn : n % 2 ^ 32 = n := Nat.mod_eq_of_lt (by omega)
      rw [escaped_stretch hc, hn, rdropWhile_stretch hc]
      by_cases hquote : c = quotationMark
      · have hodd : ¬ (2 * n + 1) % 2 = 0 := by omega
        have hhalf : (2 * n + 1) % 2 ^ 32 / 2 = n := by omega
        rw [if_pos hquote, List.append_assoc, List.append_assoc, List.singleton_append,
          parsePart_quotationMark, if_neg hodd, hhalf, ih (by omega), hquote, List.append_assoc,
          List.append_assoc, List.length_append, List.length_append, List.length_replicate,
          List.length_singleton]
        congr 2
        omega
      · rw [if_neg hquote, List.append_assoc, List.append_assoc, List.singleton_append,
          parsePart_stretch hc hquote, if_neg fun h => Bool.noConfusion h.2, hn, ih (by omega),
          List.append_assoc, List.append_assoc, List.length_append, List.length_append,
          List.length_replicate, List.length_singleton]
        congr 2
        omega

def readBack (string : List WChar) : List WChar :=
  (string.take (string.length % 2 ^ 31)).rdropWhile (· == backslash)

theorem phEscapeCommandLinePart_eq (string : List WChar) :
    phEscapeCommandLinePart string = escaped (string.take (string.length % 2 ^ 31)) := by
  have hlength : (BitVec.ofNat 32 (2 * string.length) / 2 : ULong).toNat =
      string.length % 2 ^ 31 := by
    have htwo : BitVec.toNat (2 : ULong) = 2 := rfl
    rw [BitVec.toNat_udiv, BitVec.toNat_ofNat, htwo]
    omega
  rw [phEscapeCommandLinePart, hlength]
  rfl

theorem readBack_eq_self {string : List WChar} :
    readBack string = string ↔
      string.length < 2 ^ 31 ∧ string.getLast? ≠ some backslash := by
  by_cases hlength : string.length < 2 ^ 31
  · rw [readBack, Nat.mod_eq_of_lt hlength, List.take_length, rdropWhile_eq_self]
    exact (and_iff_right hlength).symm
  · refine iff_of_false (fun h => ?_) fun h => hlength h.1
    have hle : (readBack string).length ≤ string.length % 2 ^ 31 :=
      (List.rdropWhile_prefix _ _).length_le.trans (List.length_take_le _ _)
    rw [h] at hle
    omega

/-- A string between quotation marks, escaped. -/
def quoted (string : List WChar) : List WChar :=
  quotationMark :: phEscapeCommandLinePart string ++ [quotationMark]

theorem phParseCommandLinePart_quoted {commandLine string rest : List WChar} {index : Nat}
    (hdrop : commandLine.drop index = quoted string ++ rest)
    (hrest : ∀ c ∈ rest.head?, c = space) :
    phParseCommandLinePart commandLine index =
      (readBack string, index + (quoted string).length) := by
  have hlength : (string.take (string.length % 2 ^ 31)).length < 2 ^ 31 :=
    lt_of_le_of_lt (List.length_take_le _ _) (Nat.mod_lt _ (by norm_num))
  have hopen := @parsePart_quotationMark false index 0 []
    (phEscapeCommandLinePart string ++ quotationMark :: rest)
  have hstop : ∀ i, (untilStop parsePartChar rest ⟨i, readBack string, 0, false⟩).2 =
      ⟨i, readBack string, 0, false⟩ := by
    intro i
    cases rest with
    | nil => rfl
    | cons c rest =>
        have hc : c = space := hrest c rfl
        have hspace := @parsePart_stretch c false i 0 (readBack string) rest (by rw [hc]; decide) (by rw [hc]; decide)
        rw [if_pos ⟨hc, rfl⟩] at hspace
        rw [show c :: rest = List.replicate 0 backslash ++ c :: rest from rfl, hspace]
        simp
  have htext : quoted string ++ rest =
      List.replicate 0 backslash ++
        quotationMark :: (phEscapeCommandLinePart string ++ quotationMark :: rest) := by
    simp [quoted]
  rw [phParseCommandLinePart, hdrop, htext, hopen, phEscapeCommandLinePart_eq]
  simp only [Nat.zero_mod, if_true, Nat.zero_div, List.replicate_zero, List.append_nil,
    Bool.not_false]
  rw [parsePart_escaped hlength, List.nil_append, ← readBack, hstop, quoted,
    phEscapeCommandLinePart_eq, List.length_append, List.length_cons, List.length_singleton]
  dsimp only
  congr 1
  omega

/-- A string is read back exactly when it is shorter than `2 ^ 31` characters and does not end
in a backslash. -/
theorem phEscapeCommandLinePart_roundTrips (string : List WChar) :
    phParseCommandLinePart (quoted string) 0 = (string, (quoted string).length) ↔
      string.length < 2 ^ 31 ∧ string.getLast? ≠ some backslash := by
  have hdrop : (quoted string).drop 0 = quoted string ++ [] := (List.append_nil _).symm
  rw [phParseCommandLinePart_quoted hdrop (fun c hc => by cases hc), Prod.mk.injEq,
    readBack_eq_self]
  simp

theorem phEscapeCommandLinePart_loses :
    phParseCommandLinePart (quoted [backslash]) 0 ≠
      ([backslash], (quoted [backslash]).length) := by
  decide

end SystemInformer.PhLib
