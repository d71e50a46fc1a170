import SystemInformer.Lib.Utf8
import SystemInformer.PhLib.UnicodeDecoder

/-!
# The decoder reads greedily

What a decoder of UTF-8 has taken from its input but not yet decided (`held`) is the beginning of a
sequence, and its state tells of which kind; with the input behind it there are never more than
four bytes (`Holds`). A call of `PhDecodeUnicodeDecoder` removes from these bytes what a greedy
reader would, however many of them were held (`decodeLoop_holds`): putting bytes back restores what
was there without the first byte, so none is lost or comes twice, and there is room for them because
they were read before. So the whole run gives what a greedy reader of all bytes gives, less what
the bytes that are held at the end may still become (`feed_holds`).
-/

namespace SystemInformer.PhLib

namespace PhUnicodeDecoder

open Utf8

variable {d d' : PhUnicodeDecoder} {held queue s : List UInt8} {c : UInt8} {n : Nat}

/-! ## Code units -/

@[simp] theorem toNat_ofUChar (c : UInt8) : (ofUChar c).toNat = c.toNat := by
  rw [ofUChar, BitVec.toNat_ofNat]
  exact Nat.mod_eq_of_lt (c.toNat_lt.trans (by decide))

@[simp] theorem uchar_ofUChar (c : UInt8) : uchar (ofUChar c) = c := by
  rw [uchar, toNat_ofUChar, UInt8.ofNat_toNat]

theorem ofUChar_lt_iff {m : Nat} (hm : m < 2 ^ 32) : ofUChar c < BitVec.ofNat 32 m ↔ c.toNat < m := by
  rw [BitVec.lt_def, toNat_ofUChar, BitVec.toNat_ofNat, Nat.mod_eq_of_lt hm]

theorem ofUChar_ge_iff {m : Nat} (hm : m < 2 ^ 32) : ofUChar c ≥ BitVec.ofNat 32 m ↔ m ≤ c.toNat := by
  rw [ge_iff_le, BitVec.le_def, toNat_ofUChar, BitVec.toNat_ofNat, Nat.mod_eq_of_lt hm]

theorem isTail_iff (c : UInt8) : ofUChar c &&& 0xc0 = 0x80 ↔ IsTail c := by
  have hall : ∀ m < 256, BitVec.ofNat 32 m &&& 0xc0 = 0x80 ↔ 0x80 ≤ m ∧ m < 0xc0 := by
    decide +kernel
  exact hall c.toNat c.toNat_lt

def point (n : Nat) : ULong := BitVec.ofNat 32 n

/-- A byte at which no sequence starts. -/
def escaped (c : UInt8) : Nat := c.toNat + 0xdc00

theorem point_escaped (c : UInt8) : point (escaped c) = ofUChar c + 0xdc00 := by
  rw [point, escaped, BitVec.ofNat_add]
  rfl

/-! ## The input -/

structure Queued (d : PhUnicodeDecoder) (queue : List UInt8) : Prop where
  encoding : d.encoding = .utf8
  count : d.inputCount = queue.length
  input : [d.utf8.input0, d.utf8.input1, d.utf8.input2, d.utf8.input3].take d.inputCount = queue

/-- The code units and the state, which reading and writing leave alone. -/
def units (d : PhUnicodeDecoder) : Nat × UInt8 × UInt8 × UInt8 × UInt8 :=
  (d.state, d.utf8.codeUnit1, d.utf8.codeUnit2, d.utf8.codeUnit3, d.utf8.codeUnit4)

theorem Queued.length_le (h : Queued d queue) : queue.length ≤ 4 := by
  rw [← h.input]
  exact List.length_take_le' _ _

theorem Queued.of_units (h : Queued d queue) (hencoding : d'.encoding = d.encoding)
    (hcount : d'.inputCount = d.inputCount) (h0 : d'.utf8.input0 = d.utf8.input0)
    (h1 : d'.utf8.input1 = d.utf8.input1) (h2 : d'.utf8.input2 = d.utf8.input2)
    (h3 : d'.utf8.input3 = d.utf8.input3) : Queued d' queue :=
  ⟨hencoding.trans h.encoding, hcount.trans h.count, by rw [hcount, h0, h1, h2, h3, h.input]⟩

theorem read_nil (h : Queued d []) : d.phpReadUnicodeDecoder = some (none, d) := by
  rw [phpReadUnicodeDecoder, h.encoding]
  exact if_pos h.count

theorem read_cons (h : Queued d (c :: queue)) :
    ∃ d', d.phpReadUnicodeDecoder = some (some (ofUChar c), d') ∧ Queued d' queue ∧
      d'.units = d.units := by
  have hcount := h.count
  have hinput := h.input
  rw [List.length_cons] at hcount
  rw [phpReadUnicodeDecoder, h.encoding]
  dsimp only
  rw [hcount, List.take_succ_cons, List.cons.injEq] at hinput
  rw [if_neg (by omega), hinput.1]
  refine ⟨_, rfl, ⟨rfl, ?_, ?_⟩, rfl⟩
  · show d.inputCount - 1 = queue.length
    omega
  · show ([d.utf8.input1, d.utf8.input2, d.utf8.input3, d.utf8.input3] : List UInt8).take
      (d.inputCount - 1) = queue
    have hle := h.length_le
    rw [List.length_cons] at hle
    have hsplit : ([d.utf8.input1, d.utf8.input2, d.utf8.input3, d.utf8.input3] : List UInt8) =
        [d.utf8.input1, d.utf8.input2, d.utf8.input3] ++ [d.utf8.input3] := rfl
    rw [hsplit, hcount, Nat.add_sub_cancel,
      List.take_append_of_le_length (Nat.le_of_succ_le_succ hle), hinput.2]

theorem unread_cons (h : Queued d queue) (hroom : queue.length < 4) (c : UInt8) :
    ∃ d', d.phpUnreadUnicodeDecoder (ofUChar c) = some d' ∧ Queued d' (c :: queue) ∧
      d'.units = d.units := by
  have hcount := h.count
  have hinput := h.input
  rw [phpUnreadUnicodeDecoder, h.encoding]
  dsimp only
  rw [if_neg (by omega), uchar_ofUChar]
  refine ⟨_, rfl, ⟨rfl, ?_, ?_⟩, rfl⟩
  · rw [List.length_cons, ← hcount]
  · show ([c, d.utf8.input0, d.utf8.input1, d.utf8.input2] : List UInt8).take
      (d.inputCount + 1) = c :: queue
    have hsplit : ([d.utf8.input0, d.utf8.input1, d.utf8.input2, d.utf8.input3] : List UInt8) =
        [d.utf8.input0, d.utf8.input1, d.utf8.input2] ++ [d.utf8.input3] := rfl
    rw [hsplit, List.take_append_of_le_length (by rw [hcount]; exact Nat.lt_succ_iff.mp hroom)]
      at hinput
    rw [List.take_succ_cons, hinput]

theorem write_nil (h : Queued d []) (c : UInt8) :
    ∃ d', d.phWriteUnicodeDecoder (ofUChar c) = some (true, d') ∧ Queued d' [c] ∧
      d'.units = d.units := by
  have hcount : d.inputCount = 0 := h.count
  rw [phWriteUnicodeDecoder, h.encoding]
  dsimp only
  rw [hcount, if_neg (by decide), uchar_ofUChar]
  exact ⟨_, rfl, ⟨rfl, rfl, rfl⟩, rfl⟩

theorem unreadFrom_below {which least : Nat} (hlt : which < least) (codeUnit : Utf8Units → UInt8) :
    d.unreadFrom which least codeUnit = some d := if_neg (Nat.not_le.mpr hlt)

theorem unreadFrom_cons {which least : Nat} (hle : least ≤ which) (h : Queued d queue)
    (hroom : queue.length < 4) (codeUnit : Utf8Units → UInt8) :
    ∃ d', d.unreadFrom which least codeUnit = some d' ∧ Queued d' (codeUnit d.utf8 :: queue) ∧
      d'.units = d.units := by
  rw [unreadFrom, if_pos hle]
  exact unread_cons h hroom _

theorem decodeError_eq (h : Queued d queue) {which : Nat} (hwhich : 1 ≤ which ∧ which ≤ 4)
    (hroom : which + queue.length ≤ 5) :
    ∃ d', d.phpDecodeUtf8Error which =
        some (.returned (some (point (escaped d.utf8.codeUnit1))), d') ∧
      Queued d' (([d.utf8.codeUnit2, d.utf8.codeUnit3, d.utf8.codeUnit4].take (which - 1)) ++
        queue) ∧ d'.state = 0 := by
  rw [point_escaped]
  have hend : ∀ {e : PhUnicodeDecoder} {back : List UInt8}, Queued e back → e.units = d.units →
      ∃ d', (some (Round.returned (some (ofUChar e.utf8.codeUnit1 + 0xdc00)),
          { e with state := 0 }) : Option (Round × PhUnicodeDecoder)) =
        some (.returned (some (ofUChar d.utf8.codeUnit1 + 0xdc00)), d') ∧ Queued d' back ∧
          d'.state = 0 := by
    intro e back he hunits
    have h1 : e.utf8.codeUnit1 = d.utf8.codeUnit1 := congrArg (·.2.1) hunits
    rw [h1]
    exact ⟨_, rfl, he.of_units rfl rfl rfl rfl rfl rfl, rfl⟩
  simp only [phpDecodeUtf8Error, Option.bind_eq_bind]
  obtain rfl | rfl | rfl | rfl : which = 1 ∨ which = 2 ∨ which = 3 ∨ which = 4 := by omega
  · exact hend h rfl
  · obtain ⟨e2, hread2, he2, hu2⟩ := unreadFrom_cons (Nat.le_refl 2) h (by omega) Utf8Units.codeUnit2
    rw [unreadFrom_below (by decide), Option.bind_some,
      unreadFrom_below (by decide), Option.bind_some, hread2]
    exact hend he2 hu2
  · obtain ⟨e3, hread3, he3, hu3⟩ := unreadFrom_cons (Nat.le_refl 3) h (by omega) Utf8Units.codeUnit3
    obtain ⟨e2, hread2, he2, hu2⟩ := unreadFrom_cons (show 2 ≤ 3 by decide) he3
      (by rw [List.length_cons]; omega) Utf8Units.codeUnit2
    have h2 : e3.utf8.codeUnit2 = d.utf8.codeUnit2 := congrArg (·.2.2.1) hu3
    rw [h2] at he2
    rw [unreadFrom_below (by decide), Option.bind_some, hread3, Option.bind_some, hread2]
    exact hend he2 (hu2.trans hu3)
  · obtain ⟨e4, hread4, he4, hu4⟩ := unreadFrom_cons (Nat.le_refl 4) h (by omega) Utf8Units.codeUnit4
    obtain ⟨e3, hread3, he3, hu3⟩ := unreadFrom_cons (show 3 ≤ 4 by decide) he4
      (by rw [List.length_cons]; omega) Utf8Units.codeUnit3
    obtain ⟨e2, hread2, he2, hu2⟩ := unreadFrom_cons (show 2 ≤ 4 by decide) he3
      (by rw [List.length_cons, List.length_cons]; omega) Utf8Units.codeUnit2
    have h3 : e4.utf8.codeUnit3 = d.utf8.codeUnit3 := congrArg (·.2.2.2.1) hu4
    have h2 : e3.utf8.codeUnit2 = d.utf8.codeUnit2 := congrArg (·.2.2.1) (hu3.trans hu4)
    rw [h3, h2] at he2
    rw [hread4, Option.bind_some, hread3, Option.bind_some, hread2]
    exact hend he2 (hu2.trans (hu3.trans hu4))

/-! ## What is held -/

/-- The state for bytes that begin a sequence. -/
def stateOf : List UInt8 → Nat
  | [] => 0
  | [a] => if IsLead2 a then 1 else if IsLead3 a then 2 else 3
  | [a, _] => if IsLead3 a then 4 else 5
  | _ => 6

/-- The bytes before the input have been read and not decided. -/
structure Holds (d : PhUnicodeDecoder) (held queue : List UInt8) : Prop extends Queued d queue where
  state : d.state = stateOf held
  codeUnits : [d.utf8.codeUnit1, d.utf8.codeUnit2, d.utf8.codeUnit3].take held.length = held
  possible : held = [] ∨ IsOpen held
  room : held.length + queue.length ≤ 4

theorem Holds.of_returned (h : Queued d queue) (hstate : d.state = 0) : Holds d [] queue :=
  ⟨h, hstate, rfl, .inl rfl, by rw [List.length_nil, Nat.zero_add]; exact h.length_le⟩

theorem Holds.of_units (h : Holds d held queue) {queue' : List UInt8} (hqueue : Queued d' queue')
    (hunits : d'.units = d.units) (hroom : held.length + queue'.length ≤ 4) :
    Holds d' held queue' := by
  have hstate : d'.state = d.state := congrArg (·.1) hunits
  have h1 : d'.utf8.codeUnit1 = d.utf8.codeUnit1 := congrArg (·.2.1) hunits
  have h2 : d'.utf8.codeUnit2 = d.utf8.codeUnit2 := congrArg (·.2.2.1) hunits
  have h3 : d'.utf8.codeUnit3 = d.utf8.codeUnit3 := congrArg (·.2.2.2.1) hunits
  exact ⟨hqueue, hstate.trans h.state, by rw [h1, h2, h3, h.codeUnits], h.possible, hroom⟩

/-- What a round makes of a byte: it completes what is held, it is held as well, or the first byte
is given on its own and the others are read again. -/
def Takes (round : Option (Round × PhUnicodeDecoder)) (taken queue : List UInt8) : Prop :=
  ∃ d', match value taken with
    | some n => round = some (.returned (some (point n)), d') ∧ Holds d' [] queue
    | none =>
        if IsOpen taken then round = some (.continued, d') ∧ Holds d' taken queue
        else ∃ a s, taken = a :: s ∧
          round = some (.returned (some (point (escaped a))), d') ∧ Holds d' [] (s ++ queue)

theorem Takes.value {round : Option (Round × PhUnicodeDecoder)} {taken : List UInt8}
    (hvalue : value taken = some n) (hround : round = some (.returned (some (point n)), d'))
    (hd : Holds d' [] queue) : Takes round taken queue := by
  refine ⟨d', ?_⟩
  rw [hvalue]
  exact ⟨hround, hd⟩

theorem Takes.open {round : Option (Round × PhUnicodeDecoder)} {taken : List UInt8}
    (hopen : IsOpen taken) (hround : round = some (.continued, d')) (hd : Holds d' taken queue) :
    Takes round taken queue := by
  have hvalue : Utf8.value taken = none := by
    by_contra hne
    obtain ⟨n, hn⟩ := Option.ne_none_iff_exists'.mp hne
    exact not_isOpen_of_value hn hopen
  refine ⟨d', ?_⟩
  rw [hvalue]
  dsimp only
  rw [if_pos hopen]
  exact ⟨hround, hd⟩

theorem Takes.error (h : Queued d queue) {back : List UInt8} (hroom : back.length + queue.length ≤ 4)
    (hlength : back.length ≤ 3)
    (hback : [d.utf8.codeUnit2, d.utf8.codeUnit3, d.utf8.codeUnit4].take back.length = back)
    (hvalue : Utf8.value (d.utf8.codeUnit1 :: back) = none)
    (hopen : ¬ IsOpen (d.utf8.codeUnit1 :: back)) :
    Takes (d.phpDecodeUtf8Error (back.length + 1)) (d.utf8.codeUnit1 :: back) queue := by
  obtain ⟨d', hround, hqueue, hstate⟩ := decodeError_eq h
    (show 1 ≤ back.length + 1 ∧ back.length + 1 ≤ 4 by omega) (by omega)
  rw [Nat.add_sub_cancel, hback] at hqueue
  refine ⟨d', ?_⟩
  rw [hvalue]
  dsimp only
  rw [if_neg hopen]
  exact ⟨_, _, rfl, hround, Holds.of_returned hqueue hstate⟩

/-! ## One byte -/

theorem ne_iff {a b : UInt8} : a ≠ b ↔ a.toNat ≠ b.toNat := UInt8.toNat_inj.not.symm

theorem second3_iff {a : UInt8} (ha : IsLead3 a) :
    ofUChar c &&& 0xc0 = 0x80 ∧ (a ≠ (0xe0 : UInt8) ∨ ofUChar c ≥ 0xa0) ↔ IsSecond a c := by
  have hge : ofUChar c ≥ 0xa0 ↔ 0xa0 ≤ c.toNat := ofUChar_ge_iff (by decide)
  have hne : (0xe0 : UInt8).toNat = 0xe0 := rfl
  rw [isTail_iff, hge, ne_iff, hne]
  simp only [IsLead3, IsSecond, IsTail] at *
  omega

theorem second4_iff {a : UInt8} (ha : IsLead4 a) :
    ofUChar c &&& 0xc0 = 0x80 ∧ (a ≠ (0xf0 : UInt8) ∨ ofUChar c ≥ 0x90) ∧
      (a ≠ (0xf4 : UInt8) ∨ ofUChar c < 0x90) ↔ IsSecond a c := by
  have hge : ofUChar c ≥ 0x90 ↔ 0x90 ≤ c.toNat := ofUChar_ge_iff (by decide)
  have hlt : ofUChar c < 0x90 ↔ c.toNat < 0x90 := ofUChar_lt_iff (by decide)
  have hne0 : (0xf0 : UInt8).toNat = 0xf0 := rfl
  have hne4 : (0xf4 : UInt8).toNat = 0xf4 := rfl
  rw [isTail_iff, hge, hlt, ne_iff, hne0, ne_iff, hne4]
  simp only [IsLead4, IsSecond, IsTail] at *
  omega

theorem toNat_shift (a : UInt8) {k : Nat} (hk : k ≤ 18) :
    (ofUChar a <<< k).toNat = a.toNat * 2 ^ k := by
  have hlt := a.toNat_lt
  have hpow : 2 ^ k ≤ 2 ^ 18 := Nat.pow_le_pow_right (by decide) hk
  rw [BitVec.toNat_shiftLeft, toNat_ofUChar, Nat.shiftLeft_eq]
  exact Nat.mod_eq_of_lt (by nlinarith)

theorem point2 {a b : UInt8} (ha : IsLead2 a) (hb : IsTail b) :
    (ofUChar a <<< 6) + ofUChar b - 0x3080 =
      point ((a.toNat - 0xc0) * 2 ^ 6 + (b.toNat - 0x80)) := by
  simp only [IsLead2, IsTail] at ha hb
  refine BitVec.eq_of_toNat_eq ?_
  rw [BitVec.toNat_sub, BitVec.toNat_add, toNat_shift a (by decide), toNat_ofUChar, point,
    BitVec.toNat_ofNat]
  show (2 ^ 32 - 0x3080 + _) % 2 ^ 32 = _
  omega

theorem point3 {a b c : UInt8} (ha : IsLead3 a) (hb : IsSecond a b) (hc : IsTail c) :
    (ofUChar a <<< 12) + (ofUChar b <<< 6) + ofUChar c - 0xe2080 =
      point ((a.toNat - 0xe0) * 2 ^ 12 + (b.toNat - 0x80) * 2 ^ 6 + (c.toNat - 0x80)) := by
  have hb := hb.1
  simp only [IsLead3, IsTail] at ha hb hc
  refine BitVec.eq_of_toNat_eq ?_
  rw [BitVec.toNat_sub, BitVec.toNat_add, BitVec.toNat_add, toNat_shift a (by decide),
    toNat_shift b (by decide), toNat_ofUChar, point, BitVec.toNat_ofNat]
  show (2 ^ 32 - 0xe2080 + _) % 2 ^ 32 = _
  omega

theorem point4 {a b c e : UInt8} (ha : IsLead4 a) (hb : IsSecond a b) (hc : IsTail c)
    (he : IsTail e) :
    (ofUChar a <<< 18) + (ofUChar b <<< 12) + (ofUChar c <<< 6) + ofUChar e - 0x3c82080 =
      point ((a.toNat - 0xf0) * 2 ^ 18 + (b.toNat - 0x80) * 2 ^ 12 + (c.toNat - 0x80) * 2 ^ 6 +
        (e.toNat - 0x80)) := by
  have hb := hb.1
  simp only [IsLead4, IsTail] at ha hb hc he
  refine BitVec.eq_of_toNat_eq ?_
  rw [BitVec.toNat_sub, BitVec.toNat_add, BitVec.toNat_add, BitVec.toNat_add,
    toNat_shift a (by decide), toNat_shift b (by decide), toNat_shift c (by decide),
    toNat_ofUChar, point, BitVec.toNat_ofNat]
  show (2 ^ 32 - 0x3c82080 + _) % 2 ^ 32 = _
  omega

section

variable {a b : UInt8}

theorem takes_first_error (hd : Queued d queue) (h1 : d.utf8.codeUnit1 = c)
    (hroom : queue.length ≤ 3) (hvalue : value [c] = none) (hopen : ¬ IsOpen [c]) :
    Takes (d.phpDecodeUtf8Error 1) [c] queue := by
  subst h1
  exact Takes.error hd (by rw [List.length_nil]; omega) (Nat.zero_le _) rfl hvalue hopen

theorem takes_first (hd : Queued d queue) (hstate : d.state = 0) (hroom : queue.length ≤ 3)
    (c : UInt8) : Takes (d.decodeUtf8Unit (ofUChar c)) [c] queue := by
  have h80 : ofUChar c < 0x80 ↔ c.toNat < 0x80 := ofUChar_lt_iff (by decide)
  have hc2 : ofUChar c < 0xc2 ↔ c.toNat < 0xc2 := ofUChar_lt_iff (by decide)
  have he0 : ofUChar c < 0xe0 ↔ c.toNat < 0xe0 := ofUChar_lt_iff (by decide)
  have hf0 : ofUChar c < 0xf0 ↔ c.toNat < 0xf0 := ofUChar_lt_iff (by decide)
  have hf5 : ofUChar c < 0xf5 ↔ c.toNat < 0xf5 := ofUChar_lt_iff (by decide)
  have hholds : ∀ {e : PhUnicodeDecoder}, Queued e queue → e.state = stateOf [c] →
      e.utf8.codeUnit1 = c → IsOpen [c] → Holds e [c] queue := by
    intro e he hes hc hopen
    exact ⟨he, hes, by rw [hc]; rfl, .inr hopen, by rw [List.length_singleton]; omega⟩
  rw [decodeUtf8Unit, hstate]
  simp only [uchar_ofUChar, h80, hc2, he0, hf0, hf5]
  split
  · next hone =>
      refine Takes.value (if_pos hone) rfl ?_
      exact Holds.of_returned (hd.of_units rfl rfl rfl rfl rfl rfl) rfl
  next hone =>
  have hnone : value [c] = none := value_singleton_of_not hone
  split
  · next hlow =>
      refine takes_first_error (hd.of_units rfl rfl rfl rfl rfl rfl) rfl hroom hnone ?_
      simp only [Utf8.IsOpen, IsLead2, IsLead3, IsLead4]
      omega
  split
  · next hlow htwo =>
      have hlead : IsLead2 c := ⟨by omega, htwo⟩
      refine Takes.open (.inl hlead) rfl (hholds (hd.of_units rfl rfl rfl rfl rfl rfl) ?_ rfl
        (.inl hlead))
      exact (if_pos hlead).symm
  split
  · next hlow htwo hthree =>
      have hlead : IsLead3 c := ⟨by omega, hthree⟩
      refine Takes.open (.inr (.inl hlead)) rfl (hholds (hd.of_units rfl rfl rfl rfl rfl rfl) ?_
        rfl (.inr (.inl hlead)))
      rw [stateOf, if_neg hlead.disjoint.2.1, if_pos hlead]
  split
  · next hlow htwo hthree hfour =>
      have hlead : IsLead4 c := ⟨by omega, hfour⟩
      refine Takes.open (.inr (.inr hlead)) rfl (hholds (hd.of_units rfl rfl rfl rfl rfl rfl) ?_
        rfl (.inr (.inr hlead)))
      rw [stateOf, if_neg hlead.disjoint.2.1, if_neg hlead.disjoint.2.2]
  · next hlow htwo hthree hfour =>
      refine takes_first_error (hd.of_units rfl rfl rfl rfl rfl rfl) rfl hroom hnone ?_
      simp only [Utf8.IsOpen, IsLead2, IsLead3, IsLead4]
      omega

theorem takes_second_error (hd : Queued d queue) (h1 : d.utf8.codeUnit1 = a)
    (h2 : d.utf8.codeUnit2 = c) (hroom : queue.length ≤ 3) (hvalue : value [a, c] = none)
    (hopen : ¬ IsOpen [a, c]) : Takes (d.phpDecodeUtf8Error 2) [a, c] queue := by
  subst h1 h2
  exact Takes.error hd (by rw [List.length_singleton]; omega) (by simp) rfl hvalue hopen

theorem takes_second (hd : Queued d queue) (hstate : d.state = stateOf [a])
    (h1 : d.utf8.codeUnit1 = a) (hopen : IsOpen [a]) (hroom : queue.length ≤ 2) (c : UInt8) :
    Takes (d.decodeUtf8Unit (ofUChar c)) [a, c] queue := by
  have hholds : ∀ {e : PhUnicodeDecoder}, Queued e queue → e.state = stateOf [a, c] →
      e.utf8.codeUnit1 = a → e.utf8.codeUnit2 = c → IsOpen [a, c] → Holds e [a, c] queue := by
    intro e he hes ha hc hopen
    exact ⟨he, hes, by rw [ha, hc]; rfl, .inr hopen, by rw [List.length_cons, List.length_singleton]; omega⟩
  rcases hopen with hlead | hlead | hlead
  · rw [stateOf, if_pos hlead] at hstate
    rw [decodeUtf8Unit, hstate]
    simp only [uchar_ofUChar, isTail_iff, h1]
    split
    · next htail =>
        refine Takes.value (if_pos ⟨hlead, htail⟩) (by rw [point2 hlead htail]) ?_
        exact Holds.of_returned (hd.of_units rfl rfl rfl rfl rfl rfl) rfl
    · next htail =>
        refine takes_second_error (hd.of_units rfl rfl rfl rfl rfl rfl) rfl rfl (by omega)
          (value_pair_of_not fun h => htail h.2) fun h => ?_
        rcases h.1 with h3 | h4
        · exact hlead.disjoint.2.1 h3
        · exact hlead.disjoint.2.2 h4
  · rw [stateOf, if_neg hlead.disjoint.2.1, if_pos hlead] at hstate
    rw [decodeUtf8Unit, hstate]
    simp only [uchar_ofUChar, h1, second3_iff hlead]
    split
    · next hsecond =>
        refine Takes.open ⟨.inl hlead, hsecond⟩ rfl (hholds (hd.of_units rfl rfl rfl rfl rfl rfl) ?_
          rfl rfl ⟨.inl hlead, hsecond⟩)
        exact (if_pos hlead).symm
    · next hsecond =>
        exact takes_second_error (hd.of_units rfl rfl rfl rfl rfl rfl) rfl rfl (by omega)
          (value_pair_of_not fun h => hlead.disjoint.2.1 h.1) fun h => hsecond h.2
  · rw [stateOf, if_neg hlead.disjoint.2.1, if_neg hlead.disjoint.2.2] at hstate
    rw [decodeUtf8Unit, hstate]
    simp only [uchar_ofUChar, h1, second4_iff hlead]
    split
    · next hsecond =>
        refine Takes.open ⟨.inr hlead, hsecond⟩ rfl (hholds (hd.of_units rfl rfl rfl rfl rfl rfl) ?_
          rfl rfl ⟨.inr hlead, hsecond⟩)
        exact (if_neg hlead.disjoint.2.2).symm
    · next hsecond =>
        exact takes_second_error (hd.of_units rfl rfl rfl rfl rfl rfl) rfl rfl (by omega)
          (value_pair_of_not fun h => hlead.disjoint.2.1 h.1) fun h => hsecond h.2

theorem takes_third_error (hd : Queued d queue) (h1 : d.utf8.codeUnit1 = a)
    (h2 : d.utf8.codeUnit2 = b) (h3 : d.utf8.codeUnit3 = c) (hroom : queue.length ≤ 2)
    (hvalue : value [a, b, c] = none) (hopen : ¬ IsOpen [a, b, c]) :
    Takes (d.phpDecodeUtf8Error 3) [a, b, c] queue := by
  subst h1 h2 h3
  exact Takes.error hd (by rw [List.length_cons, List.length_singleton]; omega) (by simp) rfl
    hvalue hopen

theorem takes_third (hd : Queued d queue) (hstate : d.state = stateOf [a, b])
    (h1 : d.utf8.codeUnit1 = a) (h2 : d.utf8.codeUnit2 = b) (hopen : IsOpen [a, b])
    (hroom : queue.length ≤ 1) (c : UInt8) :
    Takes (d.decodeUtf8Unit (ofUChar c)) [a, b, c] queue := by
  obtain ⟨hlead | hlead, hsecond⟩ := hopen
  · rw [stateOf, if_pos hlead] at hstate
    rw [decodeUtf8Unit, hstate]
    simp only [uchar_ofUChar, isTail_iff, h1, h2]
    split
    · next htail =>
        refine Takes.value (if_pos ⟨hlead, hsecond, htail⟩) (by rw [point3 hlead hsecond htail]) ?_
        exact Holds.of_returned (hd.of_units rfl rfl rfl rfl rfl rfl) rfl
    · next htail =>
        exact takes_third_error (hd.of_units rfl rfl rfl rfl rfl rfl) rfl rfl rfl (by omega)
          (value_triple_of_not fun h => htail h.2.2) fun h => hlead.disjoint.2.2 h.1
  · rw [stateOf, if_neg hlead.disjoint.2.2] at hstate
    rw [decodeUtf8Unit, hstate]
    simp only [uchar_ofUChar, isTail_iff, h1, h2]
    split
    · next htail =>
        have hopen : IsOpen [a, b, c] := ⟨hlead, hsecond, htail⟩
        refine Takes.open hopen rfl ⟨hd.of_units rfl rfl rfl rfl rfl rfl, rfl, rfl, .inr hopen, ?_⟩
        show 3 + queue.length ≤ 4
        omega
    · next htail =>
        exact takes_third_error (hd.of_units rfl rfl rfl rfl rfl rfl) rfl rfl rfl (by omega)
          (value_triple_of_not fun h => htail h.2.2) fun h => htail h.2.2

theorem takes_fourth {b' : UInt8} (hd : Queued d []) (hstate : d.state = 6)
    (h1 : d.utf8.codeUnit1 = a) (h2 : d.utf8.codeUnit2 = b) (h3 : d.utf8.codeUnit3 = b')
    (hopen : IsOpen [a, b, b']) (c : UInt8) :
    Takes (d.decodeUtf8Unit (ofUChar c)) [a, b, b', c] [] := by
  obtain ⟨hlead, hsecond, hthird⟩ := hopen
  rw [decodeUtf8Unit, hstate]
  simp only [uchar_ofUChar, isTail_iff]
  split
  · next htail =>
      refine Takes.value (if_pos ⟨hlead, hsecond, hthird, htail⟩)
        (by rw [h1, h2, h3, point4 hlead hsecond hthird htail]) ?_
      exact Holds.of_returned (hd.of_units rfl rfl rfl rfl rfl rfl) rfl
  · next htail =>
      subst h1 h2 h3
      exact Takes.error (d := { d with utf8 := { d.utf8 with codeUnit4 := c }, state := 6 })
        (hd.of_units rfl rfl rfl rfl rfl rfl) (by simp) (by simp) rfl
        (if_neg fun h => htail h.2.2.2) id

end

theorem decodeUtf8Unit_takes (h : Holds d held queue) (hroom : held.length + queue.length ≤ 3)
    (c : UInt8) : Takes (d.decodeUtf8Unit (ofUChar c)) (held ++ [c]) queue := by
  obtain ⟨hqueue, hstate, hunits, hpossible, -⟩ := h
  match held, hpossible, hstate, hunits with
  | [], _, hstate, _ =>
      exact takes_first hqueue hstate (by rw [List.length_nil] at hroom; omega) c
  | [a], hpossible, hstate, hunits =>
      rw [List.length_singleton] at hroom
      exact takes_second hqueue hstate (List.cons.inj hunits).1
        (hpossible.resolve_left (List.cons_ne_nil _ _)) (by omega) c
  | [a, b], hpossible, hstate, hunits =>
      rw [List.length_cons, List.length_singleton] at hroom
      exact takes_third hqueue hstate (List.cons.inj hunits).1
        (List.cons.inj (List.cons.inj hunits).2).1
        (hpossible.resolve_left (List.cons_ne_nil _ _)) (by omega) c
  | [a, b, b'], hpossible, hstate, hunits =>
      have hnil : queue = [] := by
        rw [List.length_cons, List.length_cons, List.length_singleton] at hroom
        exact List.length_eq_zero_iff.mp (by omega)
      subst hnil
      obtain ⟨h1, hunits⟩ := List.cons.inj hunits
      obtain ⟨h2, hunits⟩ := List.cons.inj hunits
      exact takes_fourth hqueue hstate h1 h2 (List.cons.inj hunits).1
        (hpossible.resolve_left (List.cons_ne_nil _ _)) c
  | _ :: _ :: _ :: _ :: _, hpossible, _, _ => exact (hpossible.resolve_left (List.cons_ne_nil _ _)).elim

/-! ## A call -/

theorem decodeRound_nil (h : Queued d []) : d.decodeRound = some (.returned none, d) := by
  rw [decodeRound, h.encoding]
  dsimp only
  rw [read_nil h]
  rfl

theorem decodeRound_cons (h : Holds d held (c :: queue)) :
    Takes d.decodeRound (held ++ [c]) queue := by
  have hroom := h.room
  rw [List.length_cons] at hroom
  obtain ⟨d', hread, hqueue, hunits⟩ := read_cons h.toQueued
  rw [decodeRound, h.encoding]
  dsimp only
  rw [hread]
  exact decodeUtf8Unit_takes (h.of_units hqueue hunits (by omega)) (by omega) c

/-- What a call returns for the bytes that are held or in the input: what they start with. -/
def Answers (result : Option (Option ULong × PhUnicodeDecoder)) (bytes : List UInt8) : Prop :=
  ∃ d', match head bytes with
    | .sequence n rest => result = some (some (point n), d') ∧ Holds d' [] rest
    | .broken a rest => result = some (some (point (escaped a)), d') ∧ Holds d' [] rest
    | .ending => result = some (none, d') ∧ Holds d' bytes []

theorem decodeLoop_answers : ∀ (rounds : Nat) {d : PhUnicodeDecoder} {held queue : List UInt8},
    Holds d held queue → queue.length < rounds → Answers (decodeLoop rounds d) (held ++ queue) := by
  intro rounds
  induction rounds with
  | zero => exact fun _ hlt => absurd hlt (Nat.not_lt_zero _)
  | succ rounds ih =>
      intro d held queue h hlt
      cases queue with
      | nil =>
          have hhead : head held = .ending := by
            rcases h.possible with rfl | hopen
            · rfl
            · exact head_of_open hopen
          refine ⟨d, ?_⟩
          rw [List.append_nil, hhead, decodeLoop, decodeRound_nil h.toQueued]
          exact ⟨rfl, h⟩
      | cons c queue =>
          obtain ⟨d', htakes⟩ := decodeRound_cons h
          have hsplit : held ++ c :: queue = held ++ [c] ++ queue := by
            rw [List.append_assoc, List.singleton_append]
          rw [decodeLoop, hsplit]
          cases hvalue : value (held ++ [c]) with
          | some n =>
              rw [hvalue] at htakes
              refine ⟨d', ?_⟩
              rw [head_append hvalue, htakes.1]
              exact ⟨rfl, htakes.2⟩
          | none =>
              rw [hvalue] at htakes
              dsimp only at htakes
              split at htakes
              · rw [htakes.1]
                exact ih htakes.2 (Nat.lt_of_succ_lt_succ hlt)
              · next hopen =>
                  obtain ⟨a, s, hcons, hround, hd⟩ := htakes
                  refine ⟨d', ?_⟩
                  rw [head_broken_append (head_of_broken h.possible hvalue hopen hcons), hround]
                  exact ⟨rfl, hd⟩

theorem phDecodeUnicodeDecoder_answers (h : Holds d held queue) :
    Answers d.phDecodeUnicodeDecoder (held ++ queue) := by
  refine decodeLoop_answers _ h ?_
  rw [h.count]
  exact Nat.lt_succ_self _

/-! ## The run -/

theorem drain_holds : ∀ (calls : Nat) {d : PhUnicodeDecoder} {held queue : List UInt8},
    Holds d held queue → held.length + queue.length < calls →
    ∃ d' left, drain calls d = some ((greedy escaped (held ++ queue)).map point, d') ∧
      Holds d' left [] ∧ ∀ u, greedy escaped (held ++ queue ++ u) =
        greedy escaped (held ++ queue) ++ greedy escaped (left ++ u) := by
  intro calls
  induction calls with
  | zero => exact fun _ hlt => absurd hlt (Nat.not_lt_zero _)
  | succ calls ih =>
      intro d held queue h hlt
      obtain ⟨d1, hanswer⟩ := phDecodeUnicodeDecoder_answers h
      have hlength : (held ++ queue).length < calls + 1 := by
        rw [List.length_append]
        exact hlt
      generalize held ++ queue = bytes at hanswer hlength ⊢
      rw [greedy_eq escaped bytes, drain]
      cases hhead : head bytes with
      | sequence n rest =>
          rw [hhead] at hanswer
          obtain ⟨p, hp, rfl⟩ := head_sequence_cases hhead
          have hpos : 0 < p.length := List.length_pos_of_ne_nil fun h => by rw [h] at hp; cases hp
          rw [List.length_append] at hlength
          obtain ⟨d', left, hdrain, hleft, hgreedy⟩ := ih hanswer.2
            (by rw [List.length_nil]; omega)
          refine ⟨d', left, ?_, hleft, fun u => ?_⟩
          · rw [hanswer.1, Option.bind_eq_bind, Option.bind_some]
            dsimp only
            rw [hdrain]
            rfl
          · rw [greedy_eq, head_sequence_append hhead]
            exact congrArg (n :: ·) (hgreedy u)
      | broken a rest =>
          rw [hhead] at hanswer
          obtain ⟨rfl, -⟩ := head_eq_broken_iff.mp hhead
          rw [List.length_cons] at hlength
          obtain ⟨d', left, hdrain, hleft, hgreedy⟩ := ih hanswer.2
            (by rw [List.length_nil]; omega)
          refine ⟨d', left, ?_, hleft, fun u => ?_⟩
          · rw [hanswer.1, Option.bind_eq_bind, Option.bind_some]
            dsimp only
            rw [hdrain]
            rfl
          · rw [greedy_eq, head_broken_append hhead]
            exact congrArg (escaped a :: ·) (hgreedy u)
      | ending =>
          rw [hhead] at hanswer
          refine ⟨d1, bytes, ?_, hanswer.2, fun u => rfl⟩
          rw [hanswer.1]
          rfl

theorem feed_holds (bytes : List UInt8) : ∀ {d : PhUnicodeDecoder} {held : List UInt8},
    Holds d held [] →
    ∃ d', feed d (bytes.map ofUChar) = some ((greedy escaped (held ++ bytes)).map point, d') := by
  induction bytes with
  | nil =>
      intro d held h
      have hhead : head held = .ending := by
        rcases h.possible with rfl | hopen
        · rfl
        · exact head_of_open hopen
      refine ⟨d, ?_⟩
      rw [List.append_nil, greedy_eq, hhead]
      rfl
  | cons c bytes ih =>
      intro d held h
      have hroom : held.length + [c].length ≤ 4 := by
        rw [List.length_singleton]
        rcases h.possible with rfl | hopen
        · exact Nat.le_add_left 1 3
        · exact Nat.succ_le_succ hopen.length_le
      obtain ⟨d1, hwrite, hqueue, hunits⟩ := write_nil h.toQueued c
      obtain ⟨d2, left, hdrain, hleft, hgreedy⟩ :=
        drain_holds 5 (h.of_units hqueue hunits hroom) (Nat.lt_succ_of_le hroom)
      obtain ⟨d', hfeed⟩ := ih hleft
      refine ⟨d', ?_⟩
      have hsplit : held ++ c :: bytes = held ++ [c] ++ bytes := by
        rw [List.append_assoc, List.singleton_append]
      rw [List.map_cons, feed, hwrite, Option.bind_eq_bind, Option.bind_some]
      dsimp only
      rw [hdrain, Option.bind_eq_bind, Option.bind_some]
      dsimp only
      rw [hfeed, hsplit, hgreedy, List.map_append]
      rfl

/-! ## The runs of a decoder of UTF-8 -/

/-- The number of code units that the state stands for. -/
def heldUnits (d : PhUnicodeDecoder) : Nat :=
  match d.state with
  | 0 => 0
  | 1 | 2 | 3 => 1
  | 4 | 5 => 2
  | _ => 3

/-- The decoder comes to this state, between two rounds: a code unit is written when a call has
returned `FALSE`. -/
inductive Visited : PhUnicodeDecoder → Prop where
  | initialized : Visited (phInitializeUnicodeDecoder .utf8)
  | round {d d' : PhUnicodeDecoder} {round : Round} :
      Visited d → d.decodeRound = some (round, d') → Visited d'
  | written {d d' d'' : PhUnicodeDecoder} {codeUnit : ULong} {written : Bool} : Visited d →
      d.decodeRound = some (.returned none, d') →
      d'.phWriteUnicodeDecoder codeUnit = some (written, d'') → Visited d''

theorem heldUnits_stateOf (h : d.state = stateOf held) (hpossible : held = [] ∨ IsOpen held) :
    d.heldUnits = held.length := by
  rw [heldUnits, h]
  rcases hpossible with rfl | hopen
  · rfl
  match held, hopen with
  | [a], _ =>
      by_cases h2 : IsLead2 a
      · rw [stateOf, if_pos h2]
        rfl
      · by_cases h3 : IsLead3 a
        · rw [stateOf, if_neg h2, if_pos h3]
          rfl
        · rw [stateOf, if_neg h2, if_neg h3]
          rfl
  | [a, _], _ =>
      by_cases h3 : IsLead3 a
      · rw [stateOf, if_pos h3]
        rfl
      · rw [stateOf, if_neg h3]
        rfl
  | [_, _, _], _ => rfl

theorem decodeRound_holds (h : Holds d held queue) :
    ∃ round d', d.decodeRound = some (round, d') ∧ (∃ held' queue', Holds d' held' queue') ∧
      (round = .returned none → d' = d ∧ queue = []) := by
  cases queue with
  | nil => exact ⟨_, d, decodeRound_nil h.toQueued, ⟨_, _, h⟩, fun _ => ⟨rfl, rfl⟩⟩
  | cons c queue =>
      obtain ⟨d', htakes⟩ := decodeRound_cons h
      cases hvalue : value (held ++ [c]) with
      | some n =>
          rw [hvalue] at htakes
          exact ⟨_, d', htakes.1, ⟨_, _, htakes.2⟩, fun h => by cases h⟩
      | none =>
          rw [hvalue] at htakes
          dsimp only at htakes
          split at htakes
          · exact ⟨_, d', htakes.1, ⟨_, _, htakes.2⟩, fun h => by cases h⟩
          · obtain ⟨a, s, -, hround, hd⟩ := htakes
            exact ⟨_, d', hround, ⟨_, _, hd⟩, fun h => by cases h⟩

theorem Visited.holds (h : Visited d) : ∃ held queue, Holds d held queue := by
  induction h with
  | initialized =>
      exact ⟨[], [], ⟨⟨rfl, rfl, rfl⟩, rfl, rfl, .inl rfl, Nat.zero_le _⟩⟩
  | round _ hround ih =>
      obtain ⟨held, queue, hd⟩ := ih
      obtain ⟨round, d', heq, hholds, -⟩ := decodeRound_holds hd
      obtain ⟨-, rfl⟩ := Prod.mk.inj (Option.some.inj (heq.symm.trans hround))
      exact hholds
  | @written d d' d'' codeUnit written _ hround hwrite ih =>
      obtain ⟨held, queue, hd⟩ := ih
      obtain ⟨round, d', heq, -, hdrained⟩ := decodeRound_holds hd
      obtain ⟨rfl, rfl⟩ := Prod.mk.inj (Option.some.inj (heq.symm.trans hround))
      obtain ⟨rfl, rfl⟩ := hdrained rfl
      have hsame : ∀ e : PhUnicodeDecoder, e.encoding = .utf8 →
          e.phWriteUnicodeDecoder (ofUChar (uchar codeUnit)) =
            e.phWriteUnicodeDecoder codeUnit := by
        intro e he
        rw [phWriteUnicodeDecoder, phWriteUnicodeDecoder, he]
        dsimp only
        rw [uchar_ofUChar]
      obtain ⟨d1, hok, hqueue, hunits⟩ := write_nil hd.toQueued (uchar codeUnit)
      rw [hsame _ hd.encoding, hwrite] at hok
      obtain ⟨-, rfl⟩ := Prod.mk.inj (Option.some.inj hok)
      refine ⟨held, _, hd.of_units hqueue hunits ?_⟩
      rw [List.length_singleton]
      rcases hd.possible with rfl | hopen
      · exact Nat.le_add_left 1 3
      · exact Nat.succ_le_succ hopen.length_le

/-- On every byte string the decoder gives what a greedy reader gives, and in no state that it
comes to does it raise or have more than four code units. -/
theorem utf8Decoder_greedy :
    (∀ bytes, ∃ codePoints d,
      (phInitializeUnicodeDecoder .utf8).feed (bytes.map ofUChar) = some (codePoints, d) ∧
        codePoints.map BitVec.toNat = greedy (fun b => b.toNat + 0xdc00) bytes) ∧
      ∀ d, Visited d → d.decodeRound ≠ none ∧ d.heldUnits + d.inputCount ≤ 4 := by
  constructor
  · intro bytes
    have hinit : Holds (phInitializeUnicodeDecoder .utf8) [] [] :=
      ⟨⟨rfl, rfl, rfl⟩, rfl, rfl, .inl rfl, Nat.zero_le _⟩
    obtain ⟨d, hfeed⟩ := feed_holds bytes hinit
    refine ⟨_, d, hfeed, ?_⟩
    rw [List.map_map, List.nil_append]
    refine List.map_congr_left (fun n hn => ?_) |>.trans (List.map_id _)
    have hle : n ≤ 0x10ffff := by
      refine greedy_le (fun b => ?_) bytes n hn
      have := b.toNat_lt
      rw [escaped]
      omega
    exact Nat.mod_eq_of_lt (hle.trans_lt (by decide))
  · intro d hd
    obtain ⟨held, queue, hholds⟩ := hd.holds
    obtain ⟨round, d', hround, -, -⟩ := decodeRound_holds hholds
    refine ⟨fun hnone => ?_, ?_⟩
    · rw [hround] at hnone
      exact Option.some_ne_none _ hnone
    · rw [heldUnits_stateOf hholds.state hholds.possible, hholds.count]
      exact hholds.room

end PhUnicodeDecoder

end SystemInformer.PhLib
