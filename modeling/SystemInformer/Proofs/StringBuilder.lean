import SystemInformer.PhLib.StringBuilder

/-!
# String builders over whole runs

What is known of the buffer are the bytes of the characters in use and the terminator behind
them. Every function first makes room for its bytes and the terminator, which is overwritten by
the new bytes or stands behind the gap that was left for them, and writes a new terminator at the
end. Two bytes for each character are what connects the two units, so byte lengths have to be
even: an odd one leaves half a character behind, and an insertion moves the rest one byte too
little.
-/

namespace SystemInformer.PhLib

open Cells PhStringBuilder

/-! ## Characters and bytes -/

/-- What is known of the bytes of characters, when nothing is known of those that were only
reserved. -/
def charCells (l : List (Option WChar)) : List (Option UInt8) :=
  l.flatMap fun c => c.elim [none, none] fun c => (Bytes.leEncode 2 c.toNat).map some

theorem length_charBytes (s : List WChar) : (charBytes s).length = 2 * s.length := by
  induction s with
  | nil => rfl
  | cons c s ih =>
      have hcons : charBytes (c :: s) = Bytes.leEncode 2 c.toNat ++ charBytes s := rfl
      rw [hcons, List.length_append, ih, Bytes.length_leEncode, List.length_cons]
      omega

theorem charCells_append (l l' : List (Option WChar)) :
    charCells (l ++ l') = charCells l ++ charCells l' := List.flatMap_append

theorem length_charCells (l : List (Option WChar)) : (charCells l).length = 2 * l.length := by
  induction l with
  | nil => rfl
  | cons c l ih =>
      have hcons : charCells (c :: l) = charCells [c] ++ charCells l :=
        charCells_append [c] l
      have hone : (charCells [c]).length = 2 := by
        cases c <;> rfl
      rw [hcons, List.length_append, ih, hone, List.length_cons]
      omega

theorem charCells_map_some (s : List WChar) : charCells (s.map some) = (charBytes s).map some := by
  induction s with
  | nil => rfl
  | cons c s ih =>
      have hcons : charCells ((c :: s).map some) = charCells [some c] ++ charCells (s.map some) :=
        charCells_append [some c] _
      rw [hcons, ih]
      rfl

theorem charCells_replicate_none (n : Nat) :
    charCells (List.replicate n none) = List.replicate (2 * n) none := by
  induction n with
  | zero => rfl
  | succ n ih =>
      have hcons : charCells (List.replicate (n + 1) none) =
          charCells [none] ++ charCells (List.replicate n none) := charCells_append [none] _
      rw [hcons, ih, show 2 * (n + 1) = 2 + 2 * n by omega, List.replicate_add]
      rfl

theorem take_charCells (l : List (Option WChar)) {n : Nat} (hn : n ≤ l.length) :
    (charCells l).take (2 * n) = charCells (l.take n) := by
  conv_lhs => rw [← List.take_append_drop n l, charCells_append]
  refine List.take_left' ?_
  rw [length_charCells, List.length_take]
  omega

theorem drop_charCells (l : List (Option WChar)) {n : Nat} (hn : n ≤ l.length) :
    (charCells l).drop (2 * n) = charCells (l.drop n) := by
  conv_lhs => rw [← List.take_append_drop n l, charCells_append]
  refine List.drop_left' ?_
  rw [length_charCells, List.length_take]
  omega

theorem take_charBytes (s : List WChar) (n : Nat) :
    (charBytes s).take (2 * n) = charBytes (s.take n) := by
  by_cases hn : n ≤ s.length
  · conv_lhs => rw [← List.take_append_drop n s, charBytes, List.flatMap_append]
    refine List.take_left' ?_
    have := length_charBytes (s.take n)
    rw [charBytes, List.length_take] at this
    omega
  · rw [List.take_of_length_le (by rw [length_charBytes]; omega),
      List.take_of_length_le (by omega)]

/-! ## What is known of a string builder -/

/-- The string is `l`, in which nothing is known of reserved characters. -/
structure Building (stringBuilder : PhStringBuilder) (l : List (Option WChar)) : Prop where
  length : stringBuilder.length.toNat = 2 * l.length
  within : stringBuilder.length.toNat ≤ stringBuilder.allocatedLength.toNat
  size : stringBuilder.buffer.length = stringBuilder.allocatedLength.toNat + 2
  buffer : Cells.Holds stringBuilder.buffer (charCells l ++ nullBytes)

variable {stringBuilder : PhStringBuilder} {l : List (Option WChar)}

/-- The bytes before a terminator are in place. -/
structure Pending (stringBuilder : PhStringBuilder) (l : List (Option WChar)) (length : Nat) :
    Prop where
  length : stringBuilder.length.toNat = length
  within : 2 * l.length ≤ stringBuilder.allocatedLength.toNat
  size : stringBuilder.buffer.length = stringBuilder.allocatedLength.toNat + 2
  buffer : Cells.Holds stringBuilder.buffer (charCells l)

variable {length : ULongPtr}

theorem Pending.terminate {n : Nat} (h : Pending stringBuilder l n)
    (hlength : length.toNat = 2 * l.length) :
    ∃ stringBuilder', stringBuilder.terminate length = some stringBuilder' ∧
      Building stringBuilder' l := by
  have hwithin := h.within
  have hfits : (charCells l).length + nullBytes.length ≤ stringBuilder.buffer.length := by
    rw [length_charCells, h.size]
    show _ + 2 ≤ _
    omega
  obtain ⟨buffer, hwrite, hsize, hholds⟩ := h.buffer.write_end hfits
  rw [length_charCells, ← hlength] at hwrite
  refine ⟨{ stringBuilder with length, buffer }, ?_, hlength, ?_, hsize.trans h.size, hholds⟩
  · rw [PhStringBuilder.terminate, hwrite]
    rfl
  · show length.toNat ≤ stringBuilder.allocatedLength.toNat
    omega

theorem building_initialize (initialCapacity : ULongPtr) :
    ∃ stringBuilder, phInitializeStringBuilder initialCapacity = some stringBuilder ∧
      Building stringBuilder [] := by
  generalize hcapacity : (if initialCapacity &&& 1 ≠ 0 then initialCapacity + 1
    else initialCapacity) = capacity
  have hsize : (phCreateStringEx capacity).length = capacity.toNat + 2 := by
    rw [phCreateStringEx, List.length_append, List.length_replicate]
    rfl
  have hnone : Cells.Holds (phCreateStringEx capacity) [] := holds_nil
  have hfits : 0 + nullBytes.length ≤ (phCreateStringEx capacity).length := by
    rw [hsize]
    show 0 + 2 ≤ _
    omega
  obtain ⟨buffer, hwrite, hlength, hholds⟩ := hnone.write (Nat.zero_le _) hfits
  refine ⟨⟨capacity, 0, buffer⟩, ?_, rfl, Nat.zero_le _, hlength.trans hsize, hholds⟩
  rw [phInitializeStringBuilder, hcapacity]
  simp only [hwrite, Option.bind_eq_bind, Option.bind_some]

theorem Building.resize (h : Building stringBuilder l) {newCapacity : ULongPtr}
    (hsmall : newCapacity.toNat < 2 ^ 63)
    (hgrow : stringBuilder.allocatedLength.toNat < newCapacity.toNat) :
    ∃ stringBuilder', stringBuilder.phpResizeStringBuilder newCapacity = some stringBuilder' ∧
      Building stringBuilder' l ∧ stringBuilder'.length = stringBuilder.length ∧
      newCapacity.toNat ≤ stringBuilder'.allocatedLength.toNat := by
  have hwithin := h.within
  have hlength := h.length
  have hdouble : (stringBuilder.allocatedLength * 2).toNat =
      2 * stringBuilder.allocatedLength.toNat := by
    rw [BitVec.toNat_mul, Nat.mul_comm]
    exact Nat.mod_eq_of_lt (by simp; omega)
  generalize hallocated : (if stringBuilder.allocatedLength * 2 < newCapacity then newCapacity
    else stringBuilder.allocatedLength * 2) = allocatedLength
  have hroom : newCapacity.toNat ≤ allocatedLength.toNat := by
    rw [← hallocated]
    split
    · exact Nat.le_refl _
    · next hnot => exact Nat.le_of_not_lt fun hlt => hnot (BitVec.lt_def.mpr hlt)
  have hcopied : (stringBuilder.length + 2).toNat = stringBuilder.length.toNat + 2 := by
    rw [BitVec.toNat_add]
    exact Nat.mod_eq_of_lt (by simp; omega)
  have hsize : (phCreateStringEx allocatedLength).length = allocatedLength.toNat + 2 := by
    rw [phCreateStringEx, List.length_append, List.length_replicate]
    rfl
  have hknown : (charCells l ++ nullBytes).length = stringBuilder.length.toNat + 2 := by
    rw [List.length_append, length_charCells, hlength]
    rfl
  obtain ⟨buffer, hwrite, hsame, hholds⟩ := @Cells.Holds.copy_front _ _ _ h.buffer
    (phCreateStringEx allocatedLength) (stringBuilder.length.toNat + 2)
    (by rw [hknown]) (by rw [h.size]; omega) (by rw [hsize]; omega)
  refine ⟨⟨allocatedLength, stringBuilder.length, buffer⟩, ?_, ⟨hlength, ?_, hsame.trans hsize,
    hholds⟩, rfl, hroom⟩
  · rw [phpResizeStringBuilder]
    simp only [hallocated, hcopied]
    rw [if_pos (by rw [h.size]; omega), hwrite]
    rfl
  · show stringBuilder.length.toNat ≤ allocatedLength.toNat
    omega

theorem Building.reserve (h : Building stringBuilder l)
    (hsmall : 2 * l.length + length.toNat < 2 ^ 63) :
    ∃ stringBuilder', stringBuilder.reserve length = some stringBuilder' ∧
      Building stringBuilder' l ∧
      2 * l.length + length.toNat ≤ stringBuilder'.allocatedLength.toNat := by
  have hsum : (stringBuilder.length + length).toNat = 2 * l.length + length.toNat := by
    rw [BitVec.toNat_add, h.length]
    exact Nat.mod_eq_of_lt (by omega)
  rw [PhStringBuilder.reserve]
  by_cases hless : stringBuilder.allocatedLength < stringBuilder.length + length
  · rw [if_pos hless]
    obtain ⟨stringBuilder', hrun, hbuilding, -, hroom⟩ :=
      h.resize (by rw [hsum]; exact hsmall) (BitVec.lt_def.mp hless)
    exact ⟨stringBuilder', hrun, hbuilding, by rw [← hsum]; exact hroom⟩
  · rw [if_neg hless]
    refine ⟨stringBuilder, rfl, h, ?_⟩
    rw [← hsum]
    exact Nat.le_of_not_lt fun hlt => hless (BitVec.lt_def.mpr hlt)

/-! ## What the functions do -/

/-- The characters that are put in: those of a string, or reserved ones. -/
def piece (string : Option (List WChar)) (n : Nat) : List (Option WChar) :=
  match string with
  | some string => (string.take n).map some
  | none => List.replicate n none

def AtLeast (string : Option (List WChar)) (n : Nat) : Prop :=
  ∀ s, string = some s → n ≤ s.length

variable {string : Option (List WChar)}

theorem length_piece {n : Nat} (h : AtLeast string n) :
    (piece string n).length = n := by
  cases string with
  | some s =>
      have := h s rfl
      simp only [piece, List.length_map, List.length_take]
      omega
  | none => exact List.length_replicate

theorem fill_gap {front back : List (Option WChar)} {n : Nat} (hlength : length.toNat = 2 * n) (hstring : AtLeast string n)
    (h : Cells.Holds stringBuilder.buffer
      (charCells front ++ List.replicate (2 * n) none ++ charCells back)) :
    ∃ buffer,
      stringBuilder.copyString (2 * front.length) length string =
        some { stringBuilder with buffer } ∧
      buffer.length = stringBuilder.buffer.length ∧
      Cells.Holds buffer (charCells (front ++ piece string n ++ back)) := by
  cases string with
  | none =>
      refine ⟨stringBuilder.buffer, rfl, rfl, ?_⟩
      rw [piece, charCells_append, charCells_append, charCells_replicate_none]
      exact h
  | some s =>
      have hn := hstring s rfl
      have hdata : ((charBytes s).take length.toNat).map some = charCells (piece (some s) n) := by
        rw [hlength, take_charBytes, piece, charCells_map_some]
      have hsize : (((charBytes s).take length.toNat).map some).length = 2 * n := by
        rw [hdata, length_charCells, length_piece hstring]
      have hroom := h.1
      simp only [List.length_append, length_charCells, List.length_replicate] at hroom
      have hat : 2 * front.length ≤
          (charCells front ++ List.replicate (2 * n) none ++ charCells back).length := by
        simp only [List.length_append, length_charCells]
        omega
      have hfits : 2 * front.length + (((charBytes s).take length.toNat).map some).length ≤
          stringBuilder.buffer.length := by
        rw [hsize]
        omega
      obtain ⟨buffer, hwrite, hsame, hholds⟩ := h.write hat hfits
      have hfront : (charCells front ++ List.replicate (2 * n) none ++ charCells back).take
          (2 * front.length) = charCells front := by
        rw [List.append_assoc]
        exact List.take_left' (length_charCells front)
      have hback : (charCells front ++ List.replicate (2 * n) none ++ charCells back).drop
          (2 * front.length + 2 * n) = charCells back := by
        refine List.drop_left' ?_
        rw [List.length_append, length_charCells, List.length_replicate]
      rw [hsize, hfront, hback, hdata, ← charCells_append, ← charCells_append] at hholds
      refine ⟨buffer, ?_, hsame, hholds⟩
      simp only [copyString, PhStringBuilder.store, hwrite, Option.bind_eq_bind,
        Option.bind_some]

theorem Building.finish (h : Building stringBuilder l) {l' : List (Option WChar)}
    {buffer : List (Option UInt8)}
    (hsame : buffer.length = stringBuilder.buffer.length) (hholds : Cells.Holds buffer (charCells l'))
    (hlength : length.toNat = 2 * l'.length)
    (hroom : 2 * l'.length ≤ stringBuilder.allocatedLength.toNat) :
    ∃ stringBuilder', { stringBuilder with buffer }.terminate length = some stringBuilder' ∧
      Building stringBuilder' l' :=
  Pending.terminate (n := stringBuilder.length.toNat) ⟨rfl, hroom, hsame.trans h.size, hholds⟩
    hlength

theorem Building.append_piece (h : Building stringBuilder l) {n : Nat} (hlength : length.toNat = 2 * n) (hstring : AtLeast string n)
    (hsmall : 2 * l.length + length.toNat < 2 ^ 63) :
    ∃ reserved buffer stringBuilder', stringBuilder.reserve length = some reserved ∧
      reserved.copyString reserved.length.toNat length string =
        some { reserved with buffer } ∧
      { reserved with buffer }.terminate (reserved.length + length) = some stringBuilder' ∧
      Building stringBuilder' (l ++ piece string n) := by
  obtain ⟨reserved, hreserve, hbuilding, hroom⟩ := h.reserve hsmall
  have hgap : Cells.Holds reserved.buffer
      (charCells l ++ List.replicate (2 * n) none ++ charCells []) := by
    have hextend := hbuilding.buffer.front.extend (n := 2 * n) (by
      rw [length_charCells, hbuilding.size]
      omega)
    rw [show charCells [] = [] from rfl, List.append_nil]
    exact hextend
  obtain ⟨buffer, hfill, hsame, hholds⟩ := fill_gap hlength hstring hgap
  rw [List.append_nil] at hholds
  have hlen : (l ++ piece string n).length = l.length + n := by
    rw [List.length_append, length_piece hstring]
  have hnew : (reserved.length + length).toNat = 2 * (l ++ piece string n).length := by
    rw [BitVec.toNat_add, hbuilding.length, hlen, Nat.mod_eq_of_lt (by omega)]
    omega
  obtain ⟨stringBuilder', hterminate, hresult⟩ :=
    hbuilding.finish hsame hholds hnew (by rw [hlen]; omega)
  rw [← hbuilding.length] at hfill
  exact ⟨reserved, buffer, stringBuilder', hreserve, hfill, hterminate, hresult⟩

theorem Building.append (h : Building stringBuilder l) {n : Nat} (hlength : length.toNat = 2 * n) (hstring : AtLeast string n)
    (hsmall : 2 * l.length + length.toNat < 2 ^ 63) :
    ∃ stringBuilder', stringBuilder.phAppendStringBuilderEx string length = some stringBuilder' ∧
      Building stringBuilder' (l ++ piece string n) := by
  rw [phAppendStringBuilderEx]
  by_cases hzero : length = 0
  · have hn : n = 0 := by
      rw [hzero] at hlength
      have hnone : (0 : ULongPtr).toNat = 0 := rfl
      omega
    have hpiece : piece string n = [] := List.length_eq_zero_iff.mp (by
      rw [length_piece hstring, hn])
    rw [if_pos hzero, hpiece, List.append_nil]
    exact ⟨stringBuilder, rfl, h⟩
  · obtain ⟨reserved, buffer, stringBuilder', hreserve, hfill, hterminate, hresult⟩ :=
      h.append_piece hlength hstring hsmall
    refine ⟨stringBuilder', ?_, hresult⟩
    rw [if_neg hzero, hreserve]
    simp only [Option.bind_eq_bind, Option.bind_some, hfill]
    exact hterminate

theorem Building.appendChar (h : Building stringBuilder l) {character : WChar}
    (hsmall : 2 * l.length + 2 < 2 ^ 63) :
    ∃ stringBuilder', stringBuilder.phAppendCharStringBuilder character = some stringBuilder' ∧
      Building stringBuilder' (l ++ [some character]) := by
  have hlength : (2 : ULongPtr).toNat = 2 * 1 := rfl
  have hstring : AtLeast (some [character]) 1 := fun s hs => by
    rw [← Option.some.inj hs]
    exact Nat.le_refl 1
  obtain ⟨reserved, buffer, stringBuilder', hreserve, hfill, hterminate, hresult⟩ :=
    h.append_piece hlength hstring hsmall
  refine ⟨stringBuilder', ?_, hresult⟩
  have hstore : reserved.store reserved.length.toNat (charBytes [character]) =
      some { reserved with buffer } := hfill
  rw [phAppendCharStringBuilder, hreserve]
  simp only [Option.bind_eq_bind, Option.bind_some, hstore]
  exact hterminate

theorem Building.appendChars (h : Building stringBuilder l) {character : WChar}
    {count : ULongPtr} (hsmall : 2 * l.length + 2 * count.toNat < 2 ^ 63) :
    ∃ stringBuilder', stringBuilder.phAppendCharStringBuilder2 character count =
        some stringBuilder' ∧
      Building stringBuilder' (l ++ List.replicate count.toNat (some character)) := by
  rw [phAppendCharStringBuilder2]
  by_cases hzero : count = 0
  · rw [if_pos hzero, hzero]
    refine ⟨stringBuilder, rfl, ?_⟩
    rw [show (0 : ULongPtr).toNat = 0 from rfl, List.replicate_zero, List.append_nil]
    exact h
  · have hdouble : (count * 2).toNat = 2 * count.toNat := by
      rw [BitVec.toNat_mul, Nat.mul_comm]
      exact Nat.mod_eq_of_lt (by simp; omega)
    have hstring : AtLeast (some (List.replicate count.toNat character)) count.toNat :=
      fun s hs => by rw [← Option.some.inj hs, List.length_replicate]
    obtain ⟨reserved, buffer, stringBuilder', hreserve, hfill, hterminate, hresult⟩ :=
      h.append_piece hdouble hstring (by rw [hdouble]; exact hsmall)
    have hpiece : piece (some (List.replicate count.toNat character)) count.toNat =
        List.replicate count.toNat (some character) := by
      rw [piece, List.take_of_length_le (by rw [List.length_replicate]), List.map_replicate]
    have hbytes : (charBytes (List.replicate count.toNat character)).take (count * 2).toNat =
        charBytes (List.replicate count.toNat character) := by
      refine List.take_of_length_le ?_
      rw [length_charBytes, List.length_replicate, hdouble]
    rw [hpiece] at hresult
    refine ⟨stringBuilder', ?_, hresult⟩
    rw [copyString, hbytes] at hfill
    rw [if_neg hzero, hreserve]
    simp only [Option.bind_eq_bind, Option.bind_some, hfill]
    exact hterminate

theorem Building.insert (h : Building stringBuilder l) {index : ULongPtr} {n : Nat} (hindex : index.toNat ≤ l.length)
    (hlength : length.toNat = 2 * n) (hstring : AtLeast string n)
    (hsmall : 2 * l.length + length.toNat < 2 ^ 63) :
    ∃ stringBuilder', stringBuilder.phInsertStringBuilderEx index string length =
        some stringBuilder' ∧
      Building stringBuilder' (l.take index.toNat ++ piece string n ++ l.drop index.toNat) := by
  rw [phInsertStringBuilderEx]
  by_cases hzero : length = 0
  · have hn : n = 0 := by
      rw [hzero] at hlength
      have hnone : (0 : ULongPtr).toNat = 0 := rfl
      omega
    have hpiece : piece string n = [] := List.length_eq_zero_iff.mp (by
      rw [length_piece hstring, hn])
    rw [if_pos hzero, hpiece, List.append_nil, List.take_append_drop]
    exact ⟨stringBuilder, rfl, h⟩
  obtain ⟨reserved, hreserve, hbuilding, hroom⟩ := h.reserve hsmall
  have hbytes : (index * 2).toNat = 2 * index.toNat := by
    rw [BitVec.toNat_mul, Nat.mul_comm]
    exact Nat.mod_eq_of_lt (by simp; omega)
  have htake : (l.take index.toNat).length = index.toNat := by
    rw [List.length_take]
    omega
  -- The gap, which is behind the characters when nothing has to be moved.
  obtain ⟨opened, hopened, hsame, hgap⟩ : ∃ buffer,
      reserved.createSpace index length = some { reserved with buffer } ∧
      buffer.length = reserved.buffer.length ∧
      Cells.Holds buffer (charCells (l.take index.toNat) ++ List.replicate (2 * n) none ++
        charCells (l.drop index.toNat)) := by
    rw [createSpace]
    by_cases hinside : index * 2 < reserved.length
    · rw [if_pos hinside]
      have hto : 2 * (index + length / 2).toNat = 2 * index.toNat + 2 * n := by
        have hhalf : (length / 2).toNat = n := by
          rw [BitVec.toNat_udiv, hlength]
          exact Nat.mul_div_cancel_left n (by decide)
        rw [BitVec.toNat_add, hhalf, Nat.mod_eq_of_lt (by omega)]
        omega
      have hcount : (reserved.length - index * 2).toNat =
          (charCells l).length - 2 * index.toNat := by
        rw [BitVec.toNat_sub_of_le (BitVec.le_of_lt hinside), hbuilding.length, hbytes,
          length_charCells]
      have hat : 2 * index.toNat ≤ (charCells l).length := by
        rw [length_charCells]
        omega
      have hfits : (charCells l).length + 2 * n ≤ reserved.buffer.length := by
        rw [length_charCells, hbuilding.size]
        omega
      obtain ⟨buffer, hmove, hsame, hholds⟩ := hbuilding.buffer.front.openGap hat hfits
      rw [take_charCells l hindex, drop_charCells l hindex] at hholds
      refine ⟨buffer, ?_, hsame, hholds⟩
      rw [hto, hcount, hmove]
      rfl
    · rw [if_neg hinside]
      have hend : index.toNat = l.length := by
        have hle : reserved.length.toNat ≤ (index * 2).toNat :=
          Nat.le_of_not_lt fun hlt => hinside (BitVec.lt_def.mpr hlt)
        rw [hbuilding.length, hbytes] at hle
        omega
      refine ⟨reserved.buffer, rfl, rfl, ?_⟩
      rw [hend, List.take_length, List.drop_length, show charCells [] = [] from rfl,
        List.append_nil]
      exact hbuilding.buffer.front.extend (by rw [length_charCells, hbuilding.size]; omega)
  have hgap' : Cells.Holds { reserved with buffer := opened }.buffer
      (charCells (l.take index.toNat) ++ List.replicate (2 * n) none ++
        charCells (l.drop index.toNat)) := hgap
  obtain ⟨buffer, hfill, hsame', hholds⟩ := fill_gap hlength hstring hgap'
  rw [htake] at hfill
  have hlen : (l.take index.toNat ++ piece string n ++ l.drop index.toNat).length =
      l.length + n := by
    simp only [List.length_append, htake, length_piece hstring, List.length_drop]
    omega
  have hnew : (reserved.length + length).toNat =
      2 * (l.take index.toNat ++ piece string n ++ l.drop index.toNat).length := by
    rw [BitVec.toNat_add, hbuilding.length, hlen, Nat.mod_eq_of_lt (by omega)]
    omega
  obtain ⟨stringBuilder', hterminate, hresult⟩ :=
    hbuilding.finish (hsame'.trans hsame) hholds hnew (by rw [hlen]; omega)
  refine ⟨stringBuilder', ?_, hresult⟩
  rw [if_neg hzero, hreserve]
  simp only [Option.bind_eq_bind, Option.bind_some, hopened, hfill]
  exact hterminate

theorem Building.remove (h : Building stringBuilder l) {startIndex count : ULongPtr}
    (hrange : startIndex.toNat + count.toNat ≤ l.length) :
    ∃ stringBuilder', stringBuilder.phRemoveStringBuilder startIndex count = some stringBuilder' ∧
      Building stringBuilder' (l.take startIndex.toNat ++ l.drop (startIndex.toNat + count.toNat)) := by
  have hlt := stringBuilder.length.isLt
  have hlength := h.length
  have hfrom : (startIndex + count).toNat = startIndex.toNat + count.toNat := by
    rw [BitVec.toNat_add]
    exact Nat.mod_eq_of_lt (by omega)
  have hbytes : ((count + startIndex) * 2).toNat = 2 * (startIndex.toNat + count.toNat) := by
    rw [BitVec.add_comm, BitVec.toNat_mul, hfrom, Nat.mul_comm]
    exact Nat.mod_eq_of_lt (by simp; omega)
  have hremoved : (count * 2).toNat = 2 * count.toNat := by
    rw [BitVec.toNat_mul, Nat.mul_comm]
    exact Nat.mod_eq_of_lt (by simp; omega)
  have hmoved : (stringBuilder.length - (count + startIndex) * 2).toNat =
      (charCells l).length - (2 * startIndex.toNat + 2 * count.toNat) := by
    rw [BitVec.toNat_sub_of_le (BitVec.le_def.mpr (by omega)), hbytes, length_charCells, hlength]
    omega
  have hgap : 2 * startIndex.toNat + 2 * count.toNat ≤ (charCells l).length := by
    rw [length_charCells]
    omega
  obtain ⟨buffer, hmove, hsame, hholds⟩ := h.buffer.front.closeGap hgap
  have hlen : (l.take startIndex.toNat ++ l.drop (startIndex.toNat + count.toNat)).length =
      l.length - count.toNat := by
    simp only [List.length_append, List.length_take, List.length_drop]
    omega
  rw [take_charCells l (by omega), ← Nat.mul_add, drop_charCells l hrange,
    ← charCells_append] at hholds
  have hnew : (stringBuilder.length - count * 2).toNat =
      2 * (l.take startIndex.toNat ++ l.drop (startIndex.toNat + count.toNat)).length := by
    rw [BitVec.toNat_sub_of_le (BitVec.le_def.mpr (by omega)), hremoved, hlen, hlength]
    omega
  have hwithin := h.within
  obtain ⟨stringBuilder', hterminate, hresult⟩ :=
    h.finish hsame hholds hnew (by rw [hlen]; omega)
  refine ⟨stringBuilder', ?_, hresult⟩
  rw [phRemoveStringBuilder, hfrom, hmoved, Nat.mul_add, hmove]
  exact hterminate

/-! ## Runs -/

/-- A call that a caller may make: the indices are inside of the string, the byte lengths are those
of whole characters that the source has, and the string stays below 2^63 bytes. -/
def StringBuilderCall.Allowed (l : List (Option WChar)) : StringBuilderCall → Prop
  | .append string length => length.toNat % 2 = 0 ∧ AtLeast string (length.toNat / 2) ∧
      2 * l.length + length.toNat < 2 ^ 63
  | .appendChar _ => 2 * l.length + 2 < 2 ^ 63
  | .appendChars _ count => 2 * l.length + 2 * count.toNat < 2 ^ 63
  | .insert index string length => index.toNat ≤ l.length ∧ length.toNat % 2 = 0 ∧
      AtLeast string (length.toNat / 2) ∧ 2 * l.length + length.toNat < 2 ^ 63
  | .remove startIndex count => startIndex.toNat + count.toNat ≤ l.length

def StringBuilderCall.effect (l : List (Option WChar)) : StringBuilderCall → List (Option WChar)
  | .append string length => l ++ piece string (length.toNat / 2)
  | .appendChar character => l ++ [some character]
  | .appendChars character count => l ++ List.replicate count.toNat (some character)
  | .insert index string length =>
      l.take index.toNat ++ piece string (length.toNat / 2) ++ l.drop index.toNat
  | .remove startIndex count =>
      l.take startIndex.toNat ++ l.drop (startIndex.toNat + count.toNat)

/-- The string builders that calls lead to, with the characters that are meant. -/
inductive StringBuilderRun : PhStringBuilder → List (Option WChar) → Prop where
  | init {stringBuilder : PhStringBuilder} {initialCapacity : ULongPtr} :
      phInitializeStringBuilder initialCapacity = some stringBuilder →
      StringBuilderRun stringBuilder []
  | call {stringBuilder stringBuilder' : PhStringBuilder} {l : List (Option WChar)}
      {call : StringBuilderCall} : StringBuilderRun stringBuilder l → call.Allowed l →
      stringBuilder.perform call = some stringBuilder' →
      StringBuilderRun stringBuilder' (call.effect l)

theorem Building.perform (h : Building stringBuilder l) {call : StringBuilderCall}
    (hallowed : call.Allowed l) :
    ∃ stringBuilder', stringBuilder.perform call = some stringBuilder' ∧
      Building stringBuilder' (call.effect l) := by
  cases call with
  | append string length =>
      obtain ⟨heven, hstring, hsmall⟩ := hallowed
      exact h.append (by omega) hstring hsmall
  | appendChar character => exact h.appendChar hallowed
  | appendChars character count => exact h.appendChars hallowed
  | insert index string length =>
      obtain ⟨hindex, heven, hstring, hsmall⟩ := hallowed
      exact h.insert hindex (by omega) hstring hsmall
  | remove startIndex count => exact h.remove hallowed

theorem StringBuilderRun.building (hrun : StringBuilderRun stringBuilder l) :
    Building stringBuilder l := by
  induction hrun with
  | init hinit =>
      obtain ⟨stringBuilder', hinit', h⟩ := building_initialize _
      rw [Option.some.inj (hinit.symm.trans hinit')]
      exact h
  | call _ hallowed hperform ih =>
      obtain ⟨stringBuilder', hperform', h⟩ := ih.perform hallowed
      rw [Option.some.inj (hperform.symm.trans hperform')]
      exact h

def PhStringBuilder.charAt (stringBuilder : PhStringBuilder) (index : Nat) : Option WChar := do
  let low ← stringBuilder.buffer[2 * index]?.join
  let high ← stringBuilder.buffer[2 * index + 1]?.join
  some (UInt16.ofNat (Bytes.leDecode [low, high]))

theorem charAt_eq {front back : List (Option UInt8)} {c : WChar}
    (h : Cells.Holds stringBuilder.buffer (front ++ (Bytes.leEncode 2 c.toNat).map some ++ back))
    {index : Nat} (hindex : front.length = 2 * index) :
    stringBuilder.charAt index = some c := by
  have hat : ∀ k < 2, stringBuilder.buffer[2 * index + k]? =
      some (some ((Bytes.leEncode 2 c.toNat).getD k 0)) := by
    intro k hk
    refine h.2 _ _ ?_
    have hlength : (Bytes.leEncode 2 c.toNat).length = 2 := Bytes.length_leEncode 2 _
    rw [List.append_assoc, ← hindex, List.getElem?_append_right (Nat.le_add_right _ _),
      Nat.add_sub_cancel_left, List.getElem?_append_left (by rw [List.length_map]; omega),
      List.getElem?_map, List.getElem?_eq_getElem (by omega),
      List.getD_eq_getElem _ _ (by omega)]
    rfl
  have hdecode := Bytes.leDecode_leEncode 2 c.toNat
  have hlt := c.toNat_lt
  rw [Nat.mod_eq_of_lt (by omega)] at hdecode
  have hlow := hat 0 (by decide)
  have hhigh := hat 1 (by decide)
  rw [Nat.add_zero] at hlow
  rw [PhStringBuilder.charAt, hlow, hhigh]
  show some (UInt16.ofNat (Bytes.leDecode (Bytes.leEncode 2 c.toNat))) = some c
  rw [hdecode, UInt16.ofNat_toNat]

/-- The string is the characters, with a terminator behind them, and fits into the buffer. -/
def Spells (stringBuilder : PhStringBuilder) (l : List (Option WChar)) : Prop :=
  stringBuilder.length.toNat = 2 * l.length ∧
    stringBuilder.length ≤ stringBuilder.allocatedLength ∧
    stringBuilder.buffer.length = stringBuilder.allocatedLength.toNat + 2 ∧
    (∀ (i : Nat) (c : WChar), l[i]? = some (some c) → stringBuilder.charAt i = some c) ∧
    stringBuilder.charAt l.length = some 0

theorem Building.spells (h : Building stringBuilder l) : Spells stringBuilder l := by
  refine ⟨h.length, BitVec.le_def.mpr h.within, h.size, fun i c hc => ?_, ?_⟩
  · obtain ⟨hi, hget⟩ := List.getElem?_eq_some_iff.mp hc
    have hsplit : charCells l ++ nullBytes =
        charCells (l.take i) ++ (Bytes.leEncode 2 c.toNat).map some ++
          (charCells (l.drop (i + 1)) ++ nullBytes) := by
      conv_lhs => rw [← List.take_append_drop i l, List.drop_eq_getElem_cons hi, hget,
        charCells_append]
      simp only [charCells, List.flatMap_cons, Option.elim, List.append_assoc]
    have hholds := h.buffer
    rw [hsplit] at hholds
    refine charAt_eq hholds ?_
    rw [length_charCells, List.length_take]
    omega
  · have hholds := h.buffer
    rw [← List.append_nil (charCells l ++ nullBytes)] at hholds
    exact charAt_eq (c := 0) hholds (length_charCells l)

/-- Every run of calls with whole characters edits the string as it is meant, and a further one
does not leave the buffer. -/
theorem stringBuilder_runs :
    (∀ initialCapacity : ULongPtr, ∃ stringBuilder,
      phInitializeStringBuilder initialCapacity = some stringBuilder) ∧
    ∀ (stringBuilder : PhStringBuilder) (l : List (Option WChar)),
      StringBuilderRun stringBuilder l →
        Spells stringBuilder l ∧ stringBuilder.length.toNat % 2 = 0 ∧
          ∀ call : StringBuilderCall, call.Allowed l →
            ∃ stringBuilder', stringBuilder.perform call = some stringBuilder' := by
  refine ⟨fun initialCapacity => ?_, fun stringBuilder l hrun => ?_⟩
  · obtain ⟨stringBuilder, hinit, -⟩ := building_initialize initialCapacity
    exact ⟨stringBuilder, hinit⟩
  have h := hrun.building
  refine ⟨h.spells, ?_, fun call hallowed => ?_⟩
  · rw [h.length]
    exact Nat.mul_mod_right 2 _
  · obtain ⟨stringBuilder', hperform, -⟩ := h.perform hallowed
    exact ⟨stringBuilder', hperform⟩

theorem stringBuilder_runs_inserted :
    ∃ stringBuilder, StringBuilderRun stringBuilder [some 72, some 105] ∧
      Spells stringBuilder [some 72, some 105] := by
  obtain ⟨first, hinit, h⟩ := building_initialize 0
  have hchar : (StringBuilderCall.appendChar 105).Allowed [] :=
    show 2 * 0 + 2 < 2 ^ 63 by decide
  obtain ⟨second, hsecond, h⟩ := h.perform hchar
  have hinsert : (StringBuilderCall.insert 0 (some [72]) 2).Allowed [some 105] :=
    ⟨Nat.zero_le _, rfl, fun s hs => by rw [← Option.some.inj hs]; exact Nat.le_refl 1,
      show 2 * 1 + 2 < 2 ^ 63 by decide⟩
  obtain ⟨third, hthird, -⟩ := h.perform hinsert
  have hrun := ((StringBuilderRun.init hinit).call hchar hsecond).call hinsert hthird
  exact ⟨third, hrun, (stringBuilder_runs.2 third _ hrun).1⟩

/-- One byte is appended. -/
theorem append_odd_length :
    ∃ stringBuilder stringBuilder', phInitializeStringBuilder 16 = some stringBuilder ∧
      stringBuilder.phAppendStringBuilderEx (some [65]) 1 = some stringBuilder' ∧
      stringBuilder'.length.toNat % 2 = 1 :=
  ⟨_, _, rfl, rfl, rfl⟩

end SystemInformer.PhLib
