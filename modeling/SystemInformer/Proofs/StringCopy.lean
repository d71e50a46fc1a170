import SystemInformer.PhLib.StringCopy
import SystemInformer.Proofs.StringRef

/-!
# What the bounded copies do

All three counts come to the characters before the terminator or the limit (`count_eq`), whether
by the loop, by the C runtime or by the blocks of `PhCountStringZ` (`phCountStringZ_eq`). Nothing
overflows, because the characters stand in memory. So the only thing that decides whether a copy
keeps its contract is the size that is added for the terminator (`copyZ_meets_iff`): it is one for
bytes, and for wide characters it is two, so `PhCopyStringZ` returns one too many and refuses a
buffer in which the string just fits.
-/

namespace SystemInformer.PhLib

section

variable {α β : Type} [Zero α] [DecidableEq α] [Zero β] {unit : Nat}

/-- The characters before the first terminator and within the limit. -/
def CopyInput.chars (input : CopyInput α unit) : List α :=
  (input.memory.take input.inputCount).takeWhile (· ≠ 0)

structure CopyMeets (extend : α → β) (input : CopyInput α unit) (output : CopyOutput β)
    (result : CopyResult β) : Prop where
  returnCount : output.hasReturnCount = true →
    result.returnCount = some (input.chars.length + 1)
  copied : result.copied = true ↔
    output.buffer ≠ none ∧ input.chars.length + 1 ≤ output.outputCount
  written : result.copied = true → ∀ buffer, output.buffer = some buffer →
    result.buffer =
      some (input.chars.map extend ++ 0 :: buffer.drop (input.chars.length + 1))
  untouched : result.copied = false → result.buffer = output.buffer

/-! ## Counting -/

theorem countLimited_eq (inputCount : Nat) (memory : List α) : ∀ i, i ≤ inputCount →
    countLimited inputCount i memory =
      i + ((memory.take (inputCount - i)).takeWhile (· ≠ 0)).length := by
  induction memory with
  | nil =>
      intro i _
      rw [countLimited, List.take_nil, List.takeWhile_nil, List.length_nil, Nat.add_zero]
  | cons c memory ih =>
      intro i hi
      rw [countLimited]
      rcases Nat.eq_or_lt_of_le hi with rfl | hlt
      · rw [if_neg fun h => Nat.lt_irrefl _ h.1, Nat.sub_self, List.take_zero,
          List.takeWhile_nil, List.length_nil, Nat.add_zero]
      · have hsub : inputCount - i = inputCount - (i + 1) + 1 := by omega
        rw [hsub, List.take_succ_cons]
        by_cases hc : c = 0
        · rw [if_neg fun h => h.2 hc, List.takeWhile_cons_of_neg (by simpa using hc),
            List.length_nil, Nat.add_zero]
        · rw [if_pos ⟨hlt, hc⟩, ih (i + 1) hlt, List.takeWhile_cons_of_pos (by simpa using hc),
            List.length_cons]
          omega

theorem terminatedLength_append (block rest : List α) :
    terminatedLength (block ++ rest) =
      (block.findIdx? (· == 0)).getD (block.length + terminatedLength rest) := by
  induction block with
  | nil => exact (Nat.zero_add _).symm
  | cons c block ih =>
      rw [List.cons_append, terminatedLength, List.findIdx?_cons]
      by_cases hc : c = 0
      · rw [List.takeWhile_cons_of_neg (by simpa using hc), if_pos (by simpa using hc)]
        rfl
      · rw [List.takeWhile_cons_of_pos (by simpa using hc), if_neg (by simpa using hc),
          List.length_cons, ← terminatedLength, ih]
        cases block.findIdx? (· == 0) with
        | none =>
            rw [Option.map_none, Option.getD_none, Option.getD_none, List.length_cons]
            omega
        | some i => rfl

theorem CopyInput.take_chars (input : CopyInput α unit) :
    input.memory.take input.chars.length = input.chars :=
  (List.prefix_iff_eq_take.mp
    ((List.takeWhile_prefix _).trans (List.take_prefix _ input.memory))).symm

theorem CopyInput.length_chars_le (input : CopyInput α unit) :
    input.chars.length ≤ input.memory.length := by
  rw [← input.take_chars]
  exact List.length_take_le' _ _

theorem CopyInput.length_chars_lt (input : CopyInput α unit) (hunit : 0 < unit) :
    input.chars.length < sizeMax := by
  have hfits : input.memory.length ≤ sizeMax :=
    (Nat.le_mul_of_pos_left _ hunit).trans input.memory_fits
  rcases input.readable with hnull | ⟨hne, -⟩
  · refine Nat.lt_of_lt_of_le (Nat.lt_of_le_of_ne input.length_chars_le fun hall => ?_) hfits
    have hmem : (0 : α) ∈ input.chars := by
      rwa [← input.take_chars, hall, List.take_length]
    simpa using List.mem_takeWhile_imp hmem
  · have hle : input.chars.length ≤ input.inputCount :=
      (List.takeWhile_prefix _).length_le.trans (List.length_take_le _ _)
    have := input.inputCount_le
    omega

theorem count_eq (input : CopyInput α unit) (hunit : 0 < unit)
    {countStringZ : List α → List α → Nat}
    (hcount : 0 ∈ input.memory → countStringZ input.before input.memory =
      terminatedLength input.memory) :
    (if input.inputCount ≠ sizeMax then countLimited input.inputCount 0 input.memory
      else countStringZ input.before input.memory) = input.chars.length := by
  split
  · rw [countLimited_eq _ _ 0 (Nat.zero_le _), Nat.zero_add, Nat.sub_zero]
    rfl
  · next hmax =>
      have hmax : input.inputCount = sizeMax := not_not.mp hmax
      have hfits : input.memory.length ≤ input.inputCount :=
        hmax ▸ (Nat.le_mul_of_pos_left _ hunit).trans input.memory_fits
      have hnull : 0 ∈ input.memory := input.readable.resolve_right fun h => h.1 hmax
      rw [hcount hnull, terminatedLength, CopyInput.chars, List.take_of_length_le hfits]

/-! ## The copy -/

/-- The contract is kept when the terminator counts as one character. Otherwise it is kept when
nobody asks for the count and the buffer is not among those that are refused for the rest. -/
theorem copyZ_meets_iff {nullSize : Nat} {countStringZ : List α → List α → Nat} {extend : α → β}
    {input : CopyInput α unit} (output : CopyOutput β) (hunit : 0 < unit)
    (hcount : 0 ∈ input.memory → countStringZ input.before input.memory =
      terminatedLength input.memory)
    (hnull : 0 < nullSize) (hfits : input.chars.length + nullSize < 2 ^ 64) :
    CopyMeets extend input output (copyZ nullSize countStringZ extend input output) ↔
      nullSize = 1 ∨ (output.hasReturnCount = false ∧
        ¬ (output.buffer ≠ none ∧ input.chars.length + 1 ≤ output.outputCount ∧
          output.outputCount < input.chars.length + nullSize)) := by
  rw [copyZ, count_eq input hunit hcount, Nat.mod_eq_of_lt hfits, input.take_chars]
  generalize hn : input.chars.length = n
  rcases output with ⟨buffer, outputCount, hasReturnCount, -⟩
  constructor
  · intro h
    by_cases hone : nullSize = 1
    · exact .inl hone
    · refine .inr ⟨?_, ?_⟩
      · cases hasReturnCount with
        | false => rfl
        | true =>
            have hreturn := h.returnCount rfl
            cases buffer with
            | none => simp [hn] at hreturn; omega
            | some buffer =>
                dsimp only at hreturn
                split at hreturn <;> simp [hn] at hreturn <;> omega
      · rintro ⟨hbuffer, hle, hlt⟩
        have hcopied := h.copied.mpr ⟨hbuffer, hn ▸ hle⟩
        cases buffer with
        | none => exact hbuffer rfl
        | some buffer =>
            dsimp only at hcopied hlt
            rw [if_neg (Nat.not_le.mpr hlt)] at hcopied
            exact Bool.false_ne_true hcopied
  · intro h
    have hreturn : hasReturnCount = true →
        (if hasReturnCount then some (n + nullSize) else none) = some (n + 1) := by
      intro htrue
      rcases h with hone | ⟨hfalse, -⟩
      · rw [if_pos htrue, hone]
      · exact absurd (htrue.symm.trans hfalse) (by decide)
    cases buffer with
    | none =>
        exact ⟨hn ▸ hreturn, iff_of_false Bool.false_ne_true fun h => h.1 rfl,
          fun _ _ hbuffer => (Option.some_ne_none _ hbuffer.symm).elim, fun _ => rfl⟩
    | some buffer =>
        dsimp only
        by_cases hle : n + nullSize ≤ outputCount
        · rw [if_pos hle]
          refine ⟨hn ▸ hreturn, iff_of_true rfl ⟨Option.some_ne_none _, ?_⟩, ?_,
            fun h => absurd h.symm Bool.false_ne_true⟩
          · dsimp only
            omega
          · intro _ _ hbuffer
            rw [← Option.some.inj hbuffer, hn]
        · rw [if_neg hle]
          refine ⟨hn ▸ hreturn, iff_of_false Bool.false_ne_true fun hcopied => ?_,
            fun h => absurd h Bool.false_ne_true, fun _ => rfl⟩
          have hroom : n + 1 ≤ outputCount := hn ▸ hcopied.2
          rcases h with hone | ⟨-, hnot⟩
          · exact hle (hone ▸ hroom)
          · exact hnot ⟨hcopied.1, hroom, Nat.not_le.mp hle⟩

end

/-! ## `PhCountStringZ` -/

theorem bitScanForward_none_or (block : List WChar) :
    (bitScanForward (compareMask 0 block) = none ∧ block.findIdx? (· == 0) = none) ∨
      ∃ index, bitScanForward (compareMask 0 block) = some index ∧
        block.findIdx? (· == 0) = some (index / 2) := by
  have hscan := bitScanForward_compareMask 0 block
  cases hmask : bitScanForward (compareMask 0 block) with
  | none => exact .inl ⟨rfl, by rw [← hscan, hmask]; rfl⟩
  | some index => exact .inr ⟨index, rfl, by rw [← hscan, hmask]; rfl⟩

theorem terminatedLength_of_none {p : Nat} {memory : List WChar} (hmem : 0 ∈ memory)
    (hnone : (memory.take p).findIdx? (· == 0) = none) :
    0 ∈ memory.drop p ∧ p < memory.length ∧
      terminatedLength memory = p + terminatedLength (memory.drop p) := by
  have hdrop : 0 ∈ memory.drop p := by
    rw [← List.take_append_drop p memory] at hmem
    refine (List.mem_append.mp hmem).resolve_left fun htake => ?_
    exact absurd (List.findIdx?_eq_none_iff.mp hnone 0 htake) (by decide)
  have hlt : p < memory.length := by
    have := List.length_pos_of_mem hdrop
    rw [List.length_drop] at this
    omega
  refine ⟨hdrop, hlt, ?_⟩
  have happend := terminatedLength_append (memory.take p) (memory.drop p)
  rw [hnone, Option.getD_none, List.take_append_drop, List.length_take_of_le hlt.le] at happend
  exact happend

theorem terminatedLength_of_some {p i : Nat} {memory : List WChar}
    (hsome : (memory.take p).findIdx? (· == 0) = some i) : terminatedLength memory = i := by
  have happend := terminatedLength_append (memory.take p) (memory.drop p)
  rwa [hsome, Option.getD_some, List.take_append_drop] at happend

theorem countBlocks_eq : ∀ (blocks position : Nat) (memory : List WChar),
    0 ∈ memory → memory.length ≤ 8 * blocks →
    countBlocks blocks position memory = position + terminatedLength memory := by
  intro blocks
  induction blocks with
  | zero =>
      intro position memory hmem hlength
      have := List.length_pos_of_mem hmem
      omega
  | succ blocks ih =>
      intro position memory hmem hlength
      rw [countBlocks]
      rcases bitScanForward_none_or (memory.take 8) with ⟨hscan, hnone⟩ | ⟨i, hscan, hsome⟩
      · obtain ⟨hdrop, -, heq⟩ := terminatedLength_of_none hmem hnone
        rw [hscan]
        dsimp only
        rw [ih _ _ hdrop (by rw [List.length_drop]; omega), heq, Nat.add_assoc]
      · rw [hscan, terminatedLength_of_some hsome]

theorem compareMask_drop (before block : List WChar) :
    (compareMask 0 (before ++ block)).drop (2 * before.length) = compareMask 0 block := by
  rw [compareMask, List.flatMap_append]
  exact List.drop_left' (length_compareMask 0 before)

theorem phCountStringZ_eq (processor : Processor) {before memory : List WChar}
    (hmem : 0 ∈ memory) :
    phCountStringZ processor before memory = terminatedLength memory := by
  have hlength : memory.length ≤ 8 * memory.length := by omega
  rw [phCountStringZ]
  split
  · dsimp only
    split
    · rw [compareMask_drop]
      rcases bitScanForward_none_or (memory.take (8 - before.length)) with
        ⟨hscan, hnone⟩ | ⟨i, hscan, hsome⟩
      · obtain ⟨hdrop, -, heq⟩ := terminatedLength_of_none hmem hnone
        rw [hscan]
        dsimp only
        rw [countBlocks_eq _ _ _ hdrop (by rw [List.length_drop]; omega), heq]
      · rw [hscan, terminatedLength_of_some hsome]
    · rw [countBlocks_eq _ _ _ hmem hlength, Nat.zero_add]
  · rfl

/-! ## The three functions -/

theorem phCopyBytesZ_meets (input : CopyInput UInt8 1) (output : CopyOutput UInt8) :
    CopyMeets id input output (phCopyBytesZ input output) := by
  have hlt := input.length_chars_lt Nat.one_pos
  refine (copyZ_meets_iff output Nat.one_pos (fun _ => rfl) Nat.one_pos ?_).mpr (.inl rfl)
  rw [sizeMax] at hlt
  show input.chars.length + 1 < 2 ^ 64
  omega

theorem phCopyStringZFromBytes_meets (input : CopyInput UInt8 1) (output : CopyOutput WChar) :
    CopyMeets c1uTo2 input output (phCopyStringZFromBytes input output) := by
  have hlt := input.length_chars_lt Nat.one_pos
  refine (copyZ_meets_iff output Nat.one_pos (fun _ => rfl) Nat.one_pos ?_).mpr (.inl rfl)
  rw [sizeMax] at hlt
  show input.chars.length + 1 < 2 ^ 64
  omega

theorem phCopyStringZ_meets_iff (processor : Processor) (input : CopyInput WChar 2)
    (output : CopyOutput WChar) :
    CopyMeets id input output (phCopyStringZ processor input output) ↔
      output.hasReturnCount = false ∧
        ¬ (output.buffer ≠ none ∧ output.outputCount = input.chars.length + 1) := by
  have hle := input.length_chars_le
  have hmemory := input.memory_fits
  rw [sizeMax] at hmemory
  rw [phCopyStringZ, copyZ_meets_iff output Nat.two_pos (fun hmem => phCountStringZ_eq _ hmem)
    (show 0 < sizeofUnicodeNull from Nat.two_pos) (by rw [sizeofUnicodeNull]; omega)]
  constructor
  · rintro (htwo | ⟨hreturn, hnot⟩)
    · exact absurd htwo (by decide)
    · refine ⟨hreturn, fun ⟨hbuffer, heq⟩ => hnot ⟨hbuffer, heq.ge, ?_⟩⟩
      rw [heq, sizeofUnicodeNull]
      omega
  · rintro ⟨hreturn, hnot⟩
    refine .inr ⟨hreturn, fun ⟨hbuffer, hge, hlt⟩ => hnot ⟨hbuffer, ?_⟩⟩
    rw [sizeofUnicodeNull] at hlt
    omega

/-- All three copies keep the contract exactly when that of wide characters is not asked for the
count and does not get a buffer in which the string just fits. -/
theorem boundedCopies_meet_iff (processor : Processor)
    (bytes : CopyInput UInt8 1) (bytesOutput : CopyOutput UInt8)
    (string : CopyInput WChar 2) (stringOutput : CopyOutput WChar)
    (extended : CopyInput UInt8 1) (extendedOutput : CopyOutput WChar) :
    (CopyMeets id bytes bytesOutput (phCopyBytesZ bytes bytesOutput) ∧
      CopyMeets id string stringOutput (phCopyStringZ processor string stringOutput) ∧
      CopyMeets c1uTo2 extended extendedOutput (phCopyStringZFromBytes extended extendedOutput)) ↔
      stringOutput.hasReturnCount = false ∧
        ¬ (stringOutput.buffer ≠ none ∧ stringOutput.outputCount = string.chars.length + 1) := by
  rw [← phCopyStringZ_meets_iff processor string stringOutput]
  constructor
  · exact fun h => h.2.1
  · exact fun h => ⟨phCopyBytesZ_meets _ _, h, phCopyStringZFromBytes_meets _ _⟩

/-- The test of `L"asdf"`, 4 and a buffer of five characters. -/
theorem phCopyStringZ_refuses_exact_fit :
    ¬ CopyMeets id (⟨[], [97, 115, 100, 102, 0], 4, by decide, by decide, by decide, by decide⟩ :
        CopyInput WChar 2)
      ⟨some [1, 1, 1, 1, 1], 5, true, fun _ h => by rw [← Option.some.inj h]; rfl⟩
      (phCopyStringZ ⟨true, true⟩
        ⟨[], [97, 115, 100, 102, 0], 4, by decide, by decide, by decide, by decide⟩
        ⟨some [1, 1, 1, 1, 1], 5, true, fun _ h => by rw [← Option.some.inj h]; rfl⟩) := by
  rw [phCopyStringZ_meets_iff]
  exact fun h => absurd h.1.symm Bool.false_ne_true

end SystemInformer.PhLib
