import SystemInformer.PhLib.StringInteger

/-!
# What hexadecimal strings decode to, and what they need

A digit of either table is looked up as its value, so the two halves of a byte come back and a
buffer survives (`hexStringLoop_encode`). The decoders look at nothing but the parity of the
length: a character that is no digit is a byte of its own.

The encoder that is handed a buffer asks for the size of the digits and then stores a terminator
behind them. So it is right exactly when there is room for one more character; the size it
reports when there is not even room for the digits leads to the call that stores behind the
buffer. Its index is a `ULONG`, and an input of `2 ^ 32` bytes is never finished
(`hexBufferLoop_none`).
-/

namespace SystemInformer.PhLib

variable {upperCase : Bool}

/-! ## The digits -/

theorem charToInteger_digit :
    ∀ upperCase : Bool, ∀ n < 16, charToInteger ((hexTable upperCase).getD n 0) = n := by
  decide

theorem halves_lt (byte : UInt8) : byte.toNat >>> 4 < 16 ∧ byte.toNat &&& 0xf < 16 := by
  have hlt := byte.toNat_lt
  rw [Nat.shiftRight_eq_div_pow]
  exact ⟨by omega, Nat.and_lt_two_pow _ (by decide : 0xf < 2 ^ 4)⟩

theorem hexByte_hexChars (byte : UInt8) :
    hexByte ((hexTable upperCase).getD (byte.toNat >>> 4) 0)
      ((hexTable upperCase).getD (byte.toNat &&& 0xf) 0) = byte := by
  obtain ⟨hhigh, hlow⟩ := halves_lt byte
  have hlt := byte.toNat_lt
  have hand : byte.toNat &&& 0xf = byte.toNat % 16 := Nat.and_two_pow_sub_one_eq_mod _ 4
  rw [hexByte, charToInteger_digit _ _ hhigh, charToInteger_digit _ _ hlow, hand]
  apply UInt8.toNat_inj.mp
  rw [UInt8.toNat_add, UInt8.toNat_ofNat', UInt8.toNat_ofNat', Nat.shiftLeft_eq,
    Nat.shiftRight_eq_div_pow]
  omega

theorem hexStringLoop_encode (buffer : List UInt8) :
    hexStringLoop (phBufferToHexStringEx buffer upperCase) = buffer := by
  induction buffer with
  | nil => rfl
  | cons byte buffer ih =>
      show hexByte _ _ :: hexStringLoop (phBufferToHexStringEx buffer upperCase) = _
      rw [hexByte_hexChars, ih]

theorem length_encode (buffer : List UInt8) :
    (phBufferToHexStringEx buffer upperCase).length = 2 * buffer.length := by
  induction buffer with
  | nil => rfl
  | cons byte buffer ih =>
      show (phBufferToHexStringEx buffer upperCase).length + 1 + 1 = _
      rw [ih, List.length_cons]
      omega

theorem length_hexStringLoop : ∀ string : List WChar,
    (hexStringLoop string).length = string.length / 2
  | [] => rfl
  | [_] => by
      rw [hexStringLoop, List.length_singleton, List.length_nil]
      exact nofun
  | high :: low :: string => by
      rw [hexStringLoop, List.length_cons, length_hexStringLoop string, List.length_cons,
        List.length_cons]
      omega

theorem odd_iff (n : Nat) : n &&& 1 ≠ 0 ↔ n % 2 = 1 := by
  rw [Nat.and_one_is_mod]
  omega

/-- Decoding undoes encoding, and what is decoded fits. -/
theorem hexString_roundTrip (buffer : List UInt8) (upperCase : Bool) :
    phHexStringToBuffer (phBufferToHexStringEx buffer upperCase) = some buffer ∧
    (∀ bufferLength, buffer.length ≤ bufferLength →
      phHexStringToBufferEx (phBufferToHexStringEx buffer upperCase) bufferLength =
        some buffer) ∧
    ∀ string bufferLength written,
      phHexStringToBufferEx string bufferLength = some written →
        2 * written.length = string.length ∧ written.length ≤ bufferLength := by
  have heven : ¬ (phBufferToHexStringEx buffer upperCase).length &&& 1 ≠ 0 := by
    rw [odd_iff, length_encode]
    omega
  refine ⟨?_, ?_, ?_⟩
  · rw [phHexStringToBuffer, if_neg heven, hexStringLoop_encode]
  · intro bufferLength hroom
    rw [phHexStringToBufferEx, if_neg heven, if_neg (by rw [length_encode]; omega),
      hexStringLoop_encode]
  · intro string bufferLength written h
    rw [phHexStringToBufferEx] at h
    split at h
    · exact nomatch h
    · next hodd =>
        rw [odd_iff] at hodd
        split at h
        · exact nomatch h
        · cases h
          rw [length_hexStringLoop]
          omega

/-! ## What is accepted -/

def IsHexDigit (c : WChar) : Prop :=
  0x30 ≤ c ∧ c ≤ 0x39 ∨ 0x61 ≤ c ∧ c ≤ 0x66 ∨ 0x41 ≤ c ∧ c ≤ 0x46

instance (c : WChar) : Decidable (IsHexDigit c) := inferInstanceAs (Decidable (_ ∨ _))

theorem phHexStringToBuffer_isSome (string : List WChar) :
    (phHexStringToBuffer string).isSome ↔ string.length % 2 = 0 := by
  rw [phHexStringToBuffer]
  split
  · next h =>
      rw [odd_iff] at h
      exact ⟨nofun, fun _ => by omega⟩
  · next h =>
      rw [odd_iff] at h
      exact ⟨fun _ => by omega, fun _ => rfl⟩

/-- Exactly the hexadecimal strings are accepted, except that nothing looks at the characters. -/
theorem hexString_accepts_iff (string : List WChar) :
    ((phHexStringToBuffer string).isSome ↔
      string.length % 2 = 0 ∧ ∀ c ∈ string, IsHexDigit c) ↔
    string.length % 2 = 1 ∨ ∀ c ∈ string, IsHexDigit c := by
  rw [phHexStringToBuffer_isSome]
  constructor
  · intro h
    rcases Nat.mod_two_eq_zero_or_one string.length with heven | hodd
    · exact Or.inr (h.mp heven).2
    · exact Or.inl hodd
  · rintro (hodd | hdigits)
    · exact ⟨fun heven => by omega, fun h => by omega⟩
    · exact ⟨fun heven => ⟨heven, hdigits⟩, And.left⟩

/-- `zz` is decoded to one byte. -/
theorem hexString_accepts_zz :
    ¬ ((phHexStringToBuffer [0x7a, 0x7a]).isSome ↔
      [0x7a, 0x7a].length % 2 = 0 ∧ ∀ c ∈ ([0x7a, 0x7a] : List WChar), IsHexDigit c) := by
  intro h
  have hdigits := (h.mp ((phHexStringToBuffer_isSome _).mpr rfl)).2
  exact absurd (hdigits 0x7a List.mem_cons_self) (by decide)

/-! ## The room for a string -/

theorem indexedStores_append (i : Nat) (s t : List WChar) :
    indexedStores i (s ++ t) = indexedStores i s ++ indexedStores (i + s.length) t := by
  induction s generalizing i with
  | nil => rfl
  | cons c s ih =>
      rw [List.cons_append, indexedStores, indexedStores, ih, List.cons_append, List.length_cons,
        Nat.add_right_comm, Nat.add_assoc]

theorem index_of_mem_indexedStores {i : Nat} {string : List WChar} {store : Nat × WChar}
    (h : store ∈ indexedStores i string) : i ≤ store.1 ∧ store.1 < i + string.length := by
  induction string generalizing i with
  | nil => exact nomatch h
  | cons c string ih =>
      rw [List.length_cons]
      rcases List.mem_cons.mp h with rfl | h
      · exact ⟨Nat.le_refl _, by show i < _; omega⟩
      · have := ih h
        omega

theorem hexBufferLoop_eq {inputBuffer : List UInt8} (hlength : inputBuffer.length < 2 ^ 32) :
    ∀ rest done, inputBuffer = done ++ rest →
      hexBufferLoop (hexTable upperCase) inputBuffer (rest.length + 1)
          (UInt32.ofNat done.length) (indexedStores 0 (phBufferToHexStringEx done upperCase)) =
        some (UInt32.ofNat inputBuffer.length,
          indexedStores 0 (phBufferToHexStringEx inputBuffer upperCase)) := by
  intro rest
  induction rest with
  | nil =>
      intro done hdone
      rw [List.append_nil] at hdone
      subst hdone
      rw [hexBufferLoop, if_neg]
      rw [UInt32.toNat_ofNat', Nat.mod_eq_of_lt hlength]
      omega
  | cons byte rest ih =>
      intro done hdone
      have hsize : inputBuffer.length = done.length + (rest.length + 1) := by
        rw [hdone, List.length_append, List.length_cons]
      have hi : (UInt32.ofNat done.length).toNat = done.length := by
        rw [UInt32.toNat_ofNat', Nat.mod_eq_of_lt (by omega)]
      have hbyte : inputBuffer.getD done.length 0 = byte := by
        rw [hdone, List.getD_append_right _ _ _ _ (Nat.le_refl _), Nat.sub_self]
        rfl
      have hnext : UInt32.ofNat done.length + 1 = UInt32.ofNat (done ++ [byte]).length := by
        rw [List.length_append, List.length_singleton, UInt32.ofNat_add]
        rfl
      have hstored : indexedStores 0 (phBufferToHexStringEx done upperCase) ++
            indexedStores (2 * done.length) (hexChars (hexTable upperCase) byte) =
          indexedStores 0 (phBufferToHexStringEx (done ++ [byte]) upperCase) := by
        rw [phBufferToHexStringEx, phBufferToHexStringEx, List.flatMap_append,
          List.flatMap_singleton, indexedStores_append]
        show _ = _ ++ indexedStores (0 + (phBufferToHexStringEx done upperCase).length) _
        rw [length_encode, Nat.zero_add]
      rw [List.length_cons, hexBufferLoop, hi, if_pos (by omega), hbyte, hnext, hstored]
      exact ih (done ++ [byte]) (by rw [hdone, List.append_assoc]; rfl)

theorem hexBufferLoop_none {inputBuffer : List UInt8} (hlength : 2 ^ 32 ≤ inputBuffer.length)
    (table : List WChar) (fuel : Nat) (i : UInt32) (stored : List (Nat × WChar)) :
    hexBufferLoop table inputBuffer fuel i stored = none := by
  induction fuel generalizing i stored with
  | zero => rfl
  | succ fuel ih =>
      rw [hexBufferLoop, if_pos (i.toNat_lt.trans_le hlength)]
      exact ih _ _

/-- Whether all characters are stored within a buffer of `outputLength` bytes. -/
def HexStringBuffer.Inside (r : HexStringBuffer) (outputLength : Nat) : Prop :=
  ∀ store ∈ r.stored, 2 * store.1 + 2 ≤ outputLength

/-- The call returns, stores within its buffer, succeeds exactly when the digits and a terminator
fit, and says how long the digits are or how much room lets it succeed. -/
def HexBufferMeets (inputBuffer : List UInt8) (upperCase : Bool) (outputLength : Nat)
    (hasReturnLength : Bool) : Prop :=
  ∃ fuel r, phBufferToHexStringBuffer inputBuffer upperCase outputLength hasReturnLength fuel =
      some r ∧
    r.Inside outputLength ∧
    (r.success ↔ 4 * inputBuffer.length + 2 ≤ outputLength) ∧
    (r.success →
      r.stored = indexedStores 0 (phBufferToHexStringEx inputBuffer upperCase ++ [0]) ∧
      ∀ returnLength ∈ r.returnLength, returnLength = 4 * inputBuffer.length) ∧
    (¬ r.success →
      r.stored = [] ∧
      ∀ returnLength ∈ r.returnLength, ∃ fuel r',
        phBufferToHexStringBuffer inputBuffer upperCase returnLength hasReturnLength fuel =
          some r' ∧
        r'.success ∧ r'.Inside returnLength)

variable {inputBuffer : List UInt8} {outputLength : Nat} {hasReturnLength : Bool}

theorem phBufferToHexStringBuffer_short (fuel : Nat)
    (h : outputLength < inputBuffer.length * 2 * 2 % 2 ^ 64) :
    phBufferToHexStringBuffer inputBuffer upperCase outputLength hasReturnLength fuel =
      some ⟨false, if hasReturnLength then some (inputBuffer.length * 2 * 2 % 2 ^ 64) else none,
        []⟩ := by
  rw [phBufferToHexStringBuffer]
  exact if_pos h

theorem phBufferToHexStringBuffer_endless (fuel : Nat)
    (h : ¬ outputLength < inputBuffer.length * 2 * 2 % 2 ^ 64)
    (hlength : 2 ^ 32 ≤ inputBuffer.length) :
    phBufferToHexStringBuffer inputBuffer upperCase outputLength hasReturnLength fuel = none := by
  rw [phBufferToHexStringBuffer]
  simp only [if_neg h, hexBufferLoop_none hlength, Option.map_none]

theorem phBufferToHexStringBuffer_fits (hlength : inputBuffer.length < 2 ^ 32)
    (h : ¬ outputLength < inputBuffer.length * 2 * 2 % 2 ^ 64) :
    phBufferToHexStringBuffer inputBuffer upperCase outputLength hasReturnLength
        (inputBuffer.length + 1) =
      some ⟨true, if hasReturnLength then some (4 * inputBuffer.length) else none,
        indexedStores 0 (phBufferToHexStringEx inputBuffer upperCase ++ [0])⟩ := by
  have hloop := @hexBufferLoop_eq upperCase _ hlength inputBuffer [] rfl
  have hi : (UInt32.ofNat inputBuffer.length).toNat = inputBuffer.length := by
    rw [UInt32.toNat_ofNat', Nat.mod_eq_of_lt hlength]
  have hfour : inputBuffer.length * 2 * 2 = 4 * inputBuffer.length := by omega
  have hterminator :
      indexedStores 0 (phBufferToHexStringEx inputBuffer upperCase) ++ [(2 * inputBuffer.length, 0)] =
        indexedStores 0 (phBufferToHexStringEx inputBuffer upperCase ++ [0]) := by
    rw [indexedStores_append, length_encode, Nat.zero_add]
    rfl
  rw [phBufferToHexStringBuffer]
  simp only [if_neg h]
  rw [show hexBufferLoop (hexTable upperCase) inputBuffer (inputBuffer.length + 1) 0 [] =
    some (UInt32.ofNat inputBuffer.length,
      indexedStores 0 (phBufferToHexStringEx inputBuffer upperCase)) from hloop]
  simp only [Option.map_some, hi, hfour, hterminator]

theorem hexBufferLoop_mono {table : List WChar} {fuel fuel' : Nat} (hle : fuel ≤ fuel')
    {i : UInt32} {stored : List (Nat × WChar)} {r : UInt32 × List (Nat × WChar)}
    (h : hexBufferLoop table inputBuffer fuel i stored = some r) :
    hexBufferLoop table inputBuffer fuel' i stored = some r := by
  induction fuel generalizing fuel' i stored with
  | zero => exact nomatch h
  | succ fuel ih =>
      obtain ⟨fuel', rfl⟩ : ∃ n, fuel' = n + 1 := ⟨fuel' - 1, by omega⟩
      rw [hexBufferLoop] at h ⊢
      split at h
      · next hi =>
          rw [if_pos hi]
          exact ih (by omega) h
      · next hi =>
          rw [if_neg hi]
          exact h

theorem phBufferToHexStringBuffer_det {fuel fuel' : Nat} {r r' : HexStringBuffer}
    (h : phBufferToHexStringBuffer inputBuffer upperCase outputLength hasReturnLength fuel =
      some r)
    (h' : phBufferToHexStringBuffer inputBuffer upperCase outputLength hasReturnLength fuel' =
      some r') : r = r' := by
  rw [phBufferToHexStringBuffer] at h h'
  dsimp only at h h'
  split at h
  · next hshort =>
      rw [if_pos hshort] at h'
      exact Option.some.inj (h.symm.trans h')
  · next hshort =>
      rw [if_neg hshort] at h'
      obtain ⟨p, hp, rfl⟩ := Option.map_eq_some_iff.mp h
      obtain ⟨p', hp', rfl⟩ := Option.map_eq_some_iff.mp h'
      have hq := hexBufferLoop_mono (Nat.le_max_left fuel fuel') hp
      rw [hexBufferLoop_mono (Nat.le_max_right fuel fuel') hp'] at hq
      cases hq
      rfl

theorem inside_iff (r : HexStringBuffer)
    (h : r.stored = indexedStores 0 (phBufferToHexStringEx inputBuffer upperCase ++ [0])) :
    r.Inside outputLength ↔ 4 * inputBuffer.length + 2 ≤ outputLength := by
  rw [HexStringBuffer.Inside, h]
  have hlength : (phBufferToHexStringEx inputBuffer upperCase ++ [0]).length =
      2 * inputBuffer.length + 1 := by
    rw [List.length_append, length_encode, List.length_singleton]
  constructor
  · intro hinside
    have hmem : (2 * inputBuffer.length, 0) ∈
        indexedStores 0 (phBufferToHexStringEx inputBuffer upperCase ++ [0]) := by
      rw [indexedStores_append, length_encode, Nat.zero_add]
      exact List.mem_append_right _ List.mem_cons_self
    have := hinside _ hmem
    dsimp only at this
    omega
  · intro hroom store hstore
    have := index_of_mem_indexedStores hstore
    omega

/-- The call is right if the digits and the terminator fit and the input can be counted, or if
the digits do not fit and nobody asks how much room they need. -/
theorem hexBuffer_meets_iff (inputBuffer : List UInt8) (upperCase : Bool) (outputLength : Nat)
    (hasReturnLength : Bool) :
    HexBufferMeets inputBuffer upperCase outputLength hasReturnLength ↔
      inputBuffer.length < 2 ^ 32 ∧ 4 * inputBuffer.length + 2 ≤ outputLength ∨
      outputLength < 4 * inputBuffer.length % 2 ^ 64 ∧ hasReturnLength = false := by
  have hfour : inputBuffer.length * 2 * 2 = 4 * inputBuffer.length := by omega
  by_cases hshort : outputLength < inputBuffer.length * 2 * 2 % 2 ^ 64
  · have hmod := Nat.mod_le (4 * inputBuffer.length) (2 ^ 64)
    rw [hfour] at hshort
    constructor
    · rintro ⟨fuel, r, hr, -, -, -, hfalse⟩
      rw [phBufferToHexStringBuffer_short fuel (by rw [hfour]; exact hshort)] at hr
      cases hr
      cases hasReturnLength with
      | false => exact Or.inr ⟨hshort, rfl⟩
      | true =>
          -- The size that is reported leaves no room for the terminator.
          obtain ⟨fuel', r', hr', -, hinside⟩ := (hfalse Bool.false_ne_true).2 _ rfl
          rcases Nat.lt_or_ge inputBuffer.length (2 ^ 32) with hlength | hlength
          · rw [phBufferToHexStringBuffer_det hr'
              (phBufferToHexStringBuffer_fits hlength (Nat.lt_irrefl _)),
              inside_iff _ rfl] at hinside
            omega
          · rw [phBufferToHexStringBuffer_endless fuel' (Nat.lt_irrefl _) hlength] at hr'
            exact nomatch hr'
    · rintro (⟨-, hroom⟩ | ⟨-, rfl⟩)
      · omega
      · refine ⟨0, _, phBufferToHexStringBuffer_short 0 (by rw [hfour]; exact hshort), nofun,
          ⟨nofun, fun h => ?_⟩, nofun, fun _ => ⟨rfl, nofun⟩⟩
        omega
  · rcases Nat.lt_or_ge inputBuffer.length (2 ^ 32) with hlength | hlength
    · have hfits := @phBufferToHexStringBuffer_fits upperCase _ _ hasReturnLength hlength
        hshort
      constructor
      · rintro ⟨fuel, r, hr, hinside, -⟩
        rw [phBufferToHexStringBuffer_det hr hfits, inside_iff _ rfl] at hinside
        exact Or.inl ⟨hlength, hinside⟩
      · rintro (⟨-, hroom⟩ | ⟨hshort', -⟩)
        · refine ⟨_, _, hfits, (inside_iff _ rfl).mpr hroom, ⟨fun _ => hroom, fun _ => rfl⟩,
            fun _ => ⟨rfl, fun n hn => ?_⟩, fun h => absurd rfl h⟩
          dsimp only at hn
          split at hn
          · exact (Option.some.inj hn).symm
          · exact nomatch hn
        · rw [hfour] at hshort
          exact absurd hshort' hshort
    · constructor
      · rintro ⟨fuel, r, hr, -⟩
        rw [phBufferToHexStringBuffer_endless fuel hshort hlength] at hr
        exact nomatch hr
      · rintro (⟨hlength', -⟩ | ⟨hshort', -⟩)
        · omega
        · rw [hfour] at hshort
          exact absurd hshort' hshort

/-- A buffer of four bytes for the two digits of one byte. -/
theorem hexBuffer_overruns : ¬ HexBufferMeets [0xab] false 4 true := by
  rintro ⟨fuel, r, hr, hinside, -⟩
  rw [phBufferToHexStringBuffer_det hr
    (phBufferToHexStringBuffer_fits (by decide) (by decide)), inside_iff _ rfl] at hinside
  exact absurd hinside (by decide)

end SystemInformer.PhLib
