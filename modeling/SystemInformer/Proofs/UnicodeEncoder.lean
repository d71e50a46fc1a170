import SystemInformer.Proofs.UnicodeDecoder

/-!
# What is encoded is decoded

The bytes of UTF-8 for a list of code points are read back by a greedy reader, and the decoder is
one. For UTF-16 there is one state between two code points, in which nothing is held: the units of
a code point that is no surrogate lead from it back to it (`feedUtf16_one`).
-/

namespace SystemInformer.PhLib

namespace PhUnicodeDecoder

/-- The code units for a list of code points, one behind the other. -/
def encodeAll (encoding : PhUnicode) (codePoints : List ULong) : Option (List ULong) :=
  (codePoints.mapM (phEncodeUnicode encoding)).map List.flatten

variable {p : ULong}

theorem encodeAll_cons (encoding : PhUnicode) (p : ULong) (ps : List ULong) :
    encodeAll encoding (p :: ps) =
      (phEncodeUnicode encoding p).bind fun units => (encodeAll encoding ps).map (units ++ ·) := by
  rw [encodeAll, List.mapM_cons, encodeAll]
  cases phEncodeUnicode encoding p with
  | none => rfl
  | some units =>
      cases ps.mapM (phEncodeUnicode encoding) with
      | none => rfl
      | some rest => rfl

/-! ## UTF-8 -/

theorem toNat_uchar (p : ULong) : (uchar p).toNat = p.toNat % 256 := UInt8.toNat_ofNat'

theorem toNat_and63 (p : ULong) : (p &&& 0x3f).toNat = p.toNat % 2 ^ 6 := by
  rw [BitVec.toNat_and]
  exact Nat.and_two_pow_sub_one_eq_mod p.toNat 6

theorem toNat_shiftRight (p : ULong) (k : Nat) : (p >>> k).toNat = p.toNat / 2 ^ k := by
  rw [BitVec.toNat_ushiftRight, Nat.shiftRight_eq_div_pow]

theorem lead_eq {base : UInt8} (p : ULong) (k : Nat) :
    uchar (p >>> k) + base = UInt8.ofNat (base.toNat + p.toNat / 2 ^ k) := by
  refine UInt8.toNat_inj.mp ?_
  rw [UInt8.toNat_add, toNat_uchar, toNat_shiftRight, UInt8.toNat_ofNat']
  omega

theorem tail_eq {q : ULong} {n : Nat} (h : q.toNat = n) :
    uchar (q &&& 0x3f) + 0x80 = UInt8.ofNat (0x80 + n % 2 ^ 6) := by
  have hbase : (0x80 : UInt8).toNat = 0x80 := rfl
  refine UInt8.toNat_inj.mp ?_
  rw [UInt8.toNat_add, toNat_uchar, toNat_and63, UInt8.toNat_ofNat', h, hbase]
  omega

theorem encodeUtf8_eq (h : p ≤ phUnicodeMaxCodePoint) :
    encodeUtf8 p = some (Utf8.encode p.toNat) := by
  have hle : p.toNat ≤ 0x10ffff := BitVec.le_def.mp h
  have h1 : p < 0x80 ↔ p.toNat < 0x80 := BitVec.lt_def
  have h2 : p ≤ 0x7ff ↔ p.toNat ≤ 0x7ff := BitVec.le_def
  have h3 : p ≤ 0xffff ↔ p.toNat ≤ 0xffff := BitVec.le_def
  have htail := tail_eq (q := p) rfl
  have htail6 := tail_eq (toNat_shiftRight p 6)
  have htail12 := tail_eq (toNat_shiftRight p 12)
  rw [encodeUtf8, Utf8.encode]
  by_cases hone : p.toNat < 0x80
  · rw [if_pos (h1.mpr hone), if_pos hone]
    rfl
  rw [if_neg (h1.not.mpr hone), if_neg hone]
  by_cases htwo : p.toNat < 0x800
  · rw [if_pos (h2.mpr (by omega)), if_pos htwo, htail, lead_eq p 6]
    rfl
  rw [if_neg (h2.not.mpr (by omega)), if_neg htwo]
  by_cases hthree : p.toNat < 0x10000
  · rw [if_pos (h3.mpr (by omega)), if_pos hthree, htail, htail6, lead_eq p 12]
    rfl
  rw [if_neg (h3.not.mpr (by omega)), if_pos h, if_neg hthree, htail, htail6, htail12,
    lead_eq p 18]
  rfl

theorem encodeAll_utf8 : ∀ {ps : List ULong}, (∀ p ∈ ps, p ≤ phUnicodeMaxCodePoint) →
    encodeAll .utf8 ps = some (((ps.map BitVec.toNat).flatMap Utf8.encode).map ofUChar) := by
  intro ps
  induction ps with
  | nil => exact fun _ => rfl
  | cons p ps ih =>
      intro h
      rw [encodeAll_cons, phEncodeUnicode, encodeUtf8_eq (h p List.mem_cons_self),
        ih fun q hq => h q (List.mem_cons_of_mem _ hq), List.map_cons, List.flatMap_cons,
        List.map_append]
      rfl

/-! ## UTF-16 -/

/-- Nothing is held and nothing is left to read. -/
structure Idle (d : PhUnicodeDecoder) : Prop where
  encoding : d.encoding = .utf16
  state : d.state = 0
  count : d.inputCount = 0

theorem toNat_ofUShort (u : UInt16) : (ofUShort u).toNat = u.toNat := by
  rw [ofUShort, BitVec.toNat_ofNat]
  exact Nat.mod_eq_of_lt (u.toNat_lt.trans (by decide))

theorem ushort_ofUShort (u : UInt16) : ushort (ofUShort u) = u := by
  rw [ushort, toNat_ofUShort, UInt16.ofNat_toNat]

theorem isHigh_iff (u : UInt16) :
    isHighSurrogate (ofUShort u) ↔ 0xd800 ≤ u.toNat ∧ u.toNat ≤ 0xdbff := by
  rw [isHighSurrogate, ge_iff_le, BitVec.le_def, BitVec.le_def, toNat_ofUShort]
  rfl

theorem isLow_iff (u : UInt16) :
    isLowSurrogate (ofUShort u) ↔ 0xdc00 ≤ u.toNat ∧ u.toNat ≤ 0xdfff := by
  rw [isLowSurrogate, ge_iff_le, BitVec.le_def, BitVec.le_def, toNat_ofUShort]
  rfl

theorem feedUtf16_unit {d : PhUnicodeDecoder} (h : Idle d) {u : UInt16}
    (hu : ¬ isHighSurrogate (ofUShort u)) (units : List ULong) :
    ∃ d', Idle d' ∧ feed d (ofUShort u :: units) =
      (feed d' units).map fun r => (ofUShort u :: r.1, r.2) := by
  obtain ⟨encoding, state, inputCount, utf8, utf16, utf32Input⟩ := d
  obtain ⟨rfl, rfl, rfl⟩ := h
  refine ⟨⟨.utf16, 0, 0, utf8, ⟨utf16.input1, utf16.input1, utf16.codeUnit⟩, utf32Input⟩,
    ⟨rfl, rfl, rfl⟩, ?_⟩
  simp [feed, phWriteUnicodeDecoder, drain, phDecodeUnicodeDecoder, decodeLoop, decodeRound,
    phpReadUnicodeDecoder, decodeUtf16Unit, ushort_ofUShort, Utf16Units.setInput, hu]
  exact Option.map_eq_bind.symm

theorem feedUtf16_pair {d : PhUnicodeDecoder} (h : Idle d) {u v : UInt16}
    (hu : isHighSurrogate (ofUShort u)) (hv : isLowSurrogate (ofUShort v)) (units : List ULong) :
    ∃ d', Idle d' ∧ feed d (ofUShort u :: ofUShort v :: units) =
      (feed d' units).map fun r =>
        (((ofUShort u <<< 10) + ofUShort v - 0x35fdc00) :: r.1, r.2) := by
  obtain ⟨encoding, state, inputCount, utf8, utf16, utf32Input⟩ := d
  obtain ⟨rfl, rfl, rfl⟩ := h
  refine ⟨⟨.utf16, 0, 0, utf8, ⟨utf16.input1, utf16.input1, u⟩, utf32Input⟩, ⟨rfl, rfl, rfl⟩, ?_⟩
  simp [feed, phWriteUnicodeDecoder, drain, phDecodeUnicodeDecoder, decodeLoop, decodeRound,
    phpReadUnicodeDecoder, decodeUtf16Unit, ushort_ofUShort, Utf16Units.setInput, hu, hv]
  exact Option.map_eq_bind.symm

theorem toNat_ushort (p : ULong) : (ushort p).toNat = p.toNat % 65536 := UInt16.toNat_ofNat'

theorem ofUShort_ushort (h : p.toNat < 0x10000) : ofUShort (ushort p) = p := by
  refine BitVec.eq_of_toNat_eq ?_
  rw [toNat_ofUShort, toNat_ushort]
  exact Nat.mod_eq_of_lt h

theorem toNat_surrogates (h : 0x10000 ≤ p.toNat ∧ p.toNat ≤ 0x10ffff) :
    (ushort (p >>> 10) + 0xd7c0).toNat = p.toNat / 2 ^ 10 + 0xd7c0 ∧
      (ushort (p &&& 0x3ff) + 0xdc00).toNat = p.toNat % 2 ^ 10 + 0xdc00 := by
  have hand : (p &&& 0x3ff).toNat = p.toNat % 2 ^ 10 := by
    rw [BitVec.toNat_and]
    exact Nat.and_two_pow_sub_one_eq_mod p.toNat 10
  have hhigh : (0xd7c0 : UInt16).toNat = 0xd7c0 := rfl
  have hlow : (0xdc00 : UInt16).toNat = 0xdc00 := rfl
  rw [UInt16.toNat_add, UInt16.toNat_add, toNat_ushort, toNat_ushort, hand, toNat_shiftRight,
    hhigh, hlow]
  omega

theorem feedUtf16_one {d : PhUnicodeDecoder} (h : Idle d) (hle : p ≤ phUnicodeMaxCodePoint)
    (hp : ¬ (0xd800 ≤ p ∧ p ≤ 0xdfff)) :
    ∃ units, phEncodeUnicode .utf16 p = some units ∧ ∀ more, ∃ d', Idle d' ∧
      feed d (units ++ more) = (feed d' more).map fun r => (p :: r.1, r.2) := by
  have hle' : p.toNat ≤ 0x10ffff := BitVec.le_def.mp hle
  have hsmall : p < 0x10000 ↔ p.toNat < 0x10000 := BitVec.lt_def
  have hsurrogate : ¬ (0xd800 ≤ p.toNat ∧ p.toNat ≤ 0xdfff) := by
    rw [BitVec.le_def, BitVec.le_def] at hp
    exact hp
  rw [phEncodeUnicode, encodeUtf16]
  by_cases hone : p.toNat < 0x10000
  · rw [if_pos (hsmall.mpr hone)]
    refine ⟨_, rfl, fun more => ?_⟩
    have hunit := ofUShort_ushort hone
    have hhigh : ¬ isHighSurrogate (ofUShort (ushort p)) := by
      rw [isHigh_iff, toNat_ushort]
      omega
    obtain ⟨d', hd', hfeed⟩ := feedUtf16_unit h hhigh more
    rw [hunit] at hfeed
    refine ⟨d', hd', ?_⟩
    rw [← hfeed]
    show feed d (ofUShort (ushort p) :: more) = _
    rw [hunit]
  · rw [if_neg (hsmall.not.mpr hone), if_pos hle]
    refine ⟨_, rfl, fun more => ?_⟩
    obtain ⟨hu, hv⟩ := toNat_surrogates ⟨Nat.not_lt.mp hone, hle'⟩
    obtain ⟨d', hd', hfeed⟩ := feedUtf16_pair h
      (u := ushort (p >>> 10) + 0xd7c0) (v := ushort (p &&& 0x3ff) + 0xdc00)
      ((isHigh_iff _).mpr (by rw [hu]; omega)) ((isLow_iff _).mpr (by rw [hv]; omega)) more
    refine ⟨d', hd', hfeed.trans ?_⟩
    have hpair : (ofUShort (ushort (p >>> 10) + 0xd7c0) <<< 10) +
        ofUShort (ushort (p &&& 0x3ff) + 0xdc00) - 0x35fdc00 = p := by
      refine BitVec.eq_of_toNat_eq ?_
      rw [BitVec.toNat_sub, BitVec.toNat_add, BitVec.toNat_shiftLeft, toNat_ofUShort,
        toNat_ofUShort, hu, hv, Nat.shiftLeft_eq]
      show (2 ^ 32 - 0x35fdc00 + _) % 2 ^ 32 = _
      omega
    rw [hpair]

theorem encodeAll_utf16 : ∀ {ps : List ULong}, (∀ p ∈ ps, p ≤ phUnicodeMaxCodePoint) →
    (∀ p ∈ ps, ¬ (0xd800 ≤ p ∧ p ≤ 0xdfff)) → ∀ {d : PhUnicodeDecoder}, Idle d →
    ∃ units d', encodeAll .utf16 ps = some units ∧ feed d units = some (ps, d') := by
  intro ps
  induction ps with
  | nil => exact fun _ _ d _ => ⟨[], d, rfl, rfl⟩
  | cons p ps ih =>
      intro hle hp d h
      obtain ⟨units, hunits, hone⟩ :=
        feedUtf16_one h (hle p List.mem_cons_self) (hp p List.mem_cons_self)
      have hmore : ∀ {d : PhUnicodeDecoder}, Idle d →
          ∃ units d', encodeAll .utf16 ps = some units ∧ feed d units = some (ps, d') :=
        ih (fun q hq => hle q (List.mem_cons_of_mem _ hq))
          fun q hq => hp q (List.mem_cons_of_mem _ hq)
      obtain ⟨more, -, hencode, -⟩ := hmore h
      obtain ⟨d1, hd1, hfeed⟩ := hone more
      obtain ⟨more', d', hencode', hfeed'⟩ := hmore hd1
      obtain rfl := Option.some.inj (hencode.symm.trans hencode')
      refine ⟨units ++ more, d', ?_, ?_⟩
      · rw [encodeAll_cons, hunits, hencode]
        rfl
      · rw [hfeed, hfeed']
        rfl

/-! ## The round trip -/

/-- Feeding a decoder the code units of code points gives back the code points. -/
theorem unicode_roundTrip (codePoints : List ULong)
    (h : ∀ p ∈ codePoints, p ≤ phUnicodeMaxCodePoint) :
    (∃ units d, encodeAll .utf8 codePoints = some units ∧
      (phInitializeUnicodeDecoder .utf8).feed units = some (codePoints, d)) ∧
    ((∀ p ∈ codePoints, ¬ (0xd800 ≤ p ∧ p ≤ 0xdfff)) →
      ∃ units d, encodeAll .utf16 codePoints = some units ∧
        (phInitializeUnicodeDecoder .utf16).feed units = some (codePoints, d)) := by
  constructor
  · have hinit : Holds (phInitializeUnicodeDecoder .utf8) [] [] :=
      ⟨⟨rfl, rfl, rfl⟩, rfl, rfl, .inl rfl, Nat.zero_le _⟩
    obtain ⟨d, hfeed⟩ := feed_holds ((codePoints.map BitVec.toNat).flatMap Utf8.encode) hinit
    refine ⟨_, d, encodeAll_utf8 h, hfeed.trans ?_⟩
    have hle : ∀ n ∈ codePoints.map BitVec.toNat, n ≤ 0x10ffff := by
      intro n hn
      obtain ⟨p, hp, rfl⟩ := List.mem_map.mp hn
      exact BitVec.le_def.mp (h p hp)
    rw [List.nil_append, Utf8.greedy_encode _ hle, List.map_map]
    refine congrArg (fun l => some (l, d)) ?_
    refine (List.map_congr_left fun p _ => ?_).trans (List.map_id _)
    exact BitVec.ofNat_toNat 32 p
  · exact fun hp => encodeAll_utf16 h hp ⟨rfl, rfl, rfl⟩

theorem unicode_roundTrip_ends :
    (∃ units d, encodeAll .utf8 [0, 0x10ffff] = some units ∧
      (phInitializeUnicodeDecoder .utf8).feed units = some ([0, 0x10ffff], d)) ∧
    ∃ units d, encodeAll .utf16 [0, 0x10ffff] = some units ∧
      (phInitializeUnicodeDecoder .utf16).feed units = some ([0, 0x10ffff], d) := by
  have h := unicode_roundTrip [0, 0x10ffff] (by simp [phUnicodeMaxCodePoint])
  exact ⟨h.1, h.2 (by simp)⟩

end PhUnicodeDecoder

end SystemInformer.PhLib
