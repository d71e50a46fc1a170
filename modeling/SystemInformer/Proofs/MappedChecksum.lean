import SystemInformer.PhLib.MappedChecksum
import SystemInformer.Proofs.MappedImage

/-!
# When the checksum does not see the stored one

The words are summed with an end-around carry, so the sum stands for their value modulo `65535`, and
taking the field away again leaves the value of the other words. Where that is no multiple of
`65535`, one digit stands for it and nothing is seen of the field. Where it is, the checksum is the
size of the view when something is stored, and `65535` more when nothing is.

A view of 4 GB or more is not summed to its end: the number of words is a `ULONG`. Then what is left
out has to be a multiple of `65535`, and the field must not be among it.
-/

namespace SystemInformer.PhLib

open Bytes EndAround

/-- An image of even length with the NT headers at an even offset. -/
structure EvenImage (m : Mem) extends AcceptedImage m where
  even_size : view.size % 2 = 0
  even_offset : (ntHeaders - view.base) % 2 = 0

variable {m : Mem}

/-! ## The sum -/

theorem checkSumLoop_eq (count : Nat) {sum : Nat} (hsum : sum < 2 ^ 16) (buffer : Nat) :
    checkSumLoop m count sum buffer =
      ((List.range count).map fun i => field m (buffer + 2 * i) 2).foldl
        (fun s a => carryIn (2 ^ 16) (s + a)) sum := by
  induction count generalizing sum buffer with
  | zero => rfl
  | succ count ih =>
      have hword := field_lt m buffer 2
      have hcarry : carryIn (2 ^ 16) (sum + field m buffer 2) < 2 ^ 16 := by
        rw [carryIn_add hsum hword]
        exact digitOf_lt (by decide) _
      rw [checkSumLoop, Nat.mod_eq_of_lt (by omega), List.range_succ_eq_map, List.map_cons,
        List.foldl_cons, List.map_map]
      refine (ih hcarry (buffer + 2)).trans ?_
      congr 1
      refine List.map_congr_left fun i _ => ?_
      show field m (buffer + 2 + 2 * i) 2 = field m (buffer + 2 * (i + 1)) 2
      rw [show buffer + 2 + 2 * i = buffer + 2 * (i + 1) by omega]

theorem phCheckSum_eq (buffer count : Nat) :
    phCheckSum m 0 buffer count =
      digitOf (2 ^ 16) ((List.range count).map fun i => field m (buffer + 2 * i) 2).sum := by
  have hwords : ∀ a ∈ (List.range count).map fun i => field m (buffer + 2 * i) 2, a < 2 ^ 16 := by
    intro a ha
    obtain ⟨i, -, rfl⟩ := List.mem_map.mp ha
    exact field_lt m _ 2
  have hlt := digitOf_lt (b := 2 ^ 16) (by decide)
    ((List.range count).map fun i => field m (buffer + 2 * i) 2).sum
  rw [phCheckSum, checkSumLoop_eq count (by decide), foldl_carryIn (by decide) (by decide) hwords,
    Nat.zero_add]
  omega

theorem subtractWithCarry_eq {p a : Nat} (hp : p < 2 ^ 16) (ha : a < 2 ^ 16) :
    subtractWithCarry p a = subBorrow (2 ^ 16) p a := by
  rw [subtractWithCarry, subBorrow]
  split <;> omega

/-! ## The words with a stored field -/

theorem field_append (a n k : Nat) :
    field m a (n + k) = field m a n + 256 ^ n * field m (a + n) k := by
  induction n generalizing a with
  | zero =>
      rw [Nat.zero_add, pow_zero, Nat.one_mul, Nat.add_zero]
      exact (Nat.zero_add _).symm
  | succ n ih =>
      have hcons : ∀ n a : Nat, field m a (n + 1) = (m a).toNat + 256 * field m (a + 1) n := by
        intro n a
        rw [field, load, List.range_succ_eq_map, List.map_cons, leDecode, List.map_map, field, load]
        congr 3
        refine List.map_congr_left fun i _ => ?_
        show m (a + (i + 1)) = m (a + 1 + i)
        rw [show a + (i + 1) = a + 1 + i by omega]
      rw [show n + 1 + k = n + k + 1 by omega, hcons, ih, hcons, pow_succ,
        show a + 1 + n = a + (n + 1) by omega]
      ring

theorem leEncode_leDecode (bytes : List UInt8) :
    leEncode bytes.length (leDecode bytes) = bytes := by
  induction bytes with
  | nil => rfl
  | cons b rest ih =>
      have hb := b.toNat_lt
      have hlow : UInt8.ofNat (b.toNat + 256 * leDecode rest) = b := by
        apply UInt8.toNat_inj.mp
        rw [UInt8.toNat_ofNat']
        omega
      have hhigh : (b.toNat + 256 * leDecode rest) / 256 = leDecode rest := by omega
      rw [List.length_cons, leDecode, leEncode, hlow, hhigh, ih]

theorem Store.apply_field_self (a n : Nat) : (Store.field a n (field m a n)).apply m = m := by
  have hbytes : (Store.field a n (field m a n)).bytes = load m a n := by
    have h := leEncode_leDecode (load m a n)
    rwa [length_load] at h
  funext x
  by_cases hx : (Store.field a n (field m a n)).covers x
  · obtain ⟨hlo, hhi⟩ := hx
    have haddr : (Store.field a n (field m a n)).addr = a := rfl
    rw [haddr] at hlo hhi
    rw [Store.apply, if_pos ⟨hlo, hhi⟩, hbytes, haddr]
    rw [hbytes, length_load] at hhi
    rw [List.getD_eq_getElem _ _ (by rw [length_load]; omega)]
    simp only [load, List.getElem_map, List.getElem_range]
    rw [Nat.add_sub_of_le hlo]
  · exact Store.apply_of_not_covers hx

theorem EvenImage.index_eq (image : EvenImage m) :
    image.view.base + 2 * checkSumIndex image.toPhMappedImage =
      image.ntHeaders + offsetCheckSum ∧ 44 ≤ checkSumIndex image.toPhMappedImage := by
  have hnear := image.ntHeaders_near.1
  have heven := image.even_offset
  simp only [checkSumIndex, offsetCheckSum, offsetOptionalHeader]
  omega

theorem EvenImage.fieldWords (image : EvenImage m) {checkSum : Nat} (hc : checkSum < 2 ^ 32) :
    imageWord image.toPhMappedImage (storeCheckSum image.toPhMappedImage checkSum m)
        (checkSumIndex image.toPhMappedImage) = checkSum % 2 ^ 16 ∧
      imageWord image.toPhMappedImage (storeCheckSum image.toPhMappedImage checkSum m)
        (checkSumIndex image.toPhMappedImage + 1) = checkSum / 2 ^ 16 := by
  have hindex := image.index_eq.1
  have hwhole : field (storeCheckSum image.toPhMappedImage checkSum m)
      (image.ntHeaders + offsetCheckSum) 4 = checkSum := by
    rw [storeCheckSum, Store.field_apply_same]
    exact Nat.mod_eq_of_lt hc
  have happend : field (storeCheckSum image.toPhMappedImage checkSum m)
      (image.ntHeaders + offsetCheckSum) 4 = _ + 65536 * _ := field_append _ 2 2
  have hlow := field_lt (storeCheckSum image.toPhMappedImage checkSum m)
    (image.ntHeaders + offsetCheckSum) 2
  rw [imageWord, imageWord, hindex,
    show image.view.base + 2 * (checkSumIndex image.toPhMappedImage + 1) =
      image.ntHeaders + offsetCheckSum + 2 by omega]
  omega

theorem EvenImage.otherWord (image : EvenImage m) (checkSum : Nat) {i : Nat}
    (hi : i ≠ checkSumIndex image.toPhMappedImage)
    (hi' : i ≠ checkSumIndex image.toPhMappedImage + 1) :
    imageWord image.toPhMappedImage (storeCheckSum image.toPhMappedImage checkSum m) i =
      imageWord image.toPhMappedImage m i := by
  have hindex := image.index_eq.1
  rw [imageWord, imageWord, storeCheckSum]
  refine Store.field_apply_disjoint ?_
  show _ ∨ image.ntHeaders + offsetCheckSum + (leEncode 4 checkSum).length ≤ _
  rw [length_leEncode]
  show _ ≤ image.ntHeaders + offsetCheckSum ∨ _
  omega

theorem EvenImage.sum_stored (image : EvenImage m) {checkSum : Nat} (hc : checkSum < 2 ^ 32)
    (count : Nat) :
    ((List.range count).map (imageWord image.toPhMappedImage
      (storeCheckSum image.toPhMappedImage checkSum m))).sum =
      wordsTotal image.toPhMappedImage m 0 count +
        (if checkSumIndex image.toPhMappedImage < count then checkSum % 2 ^ 16 else 0) +
        (if checkSumIndex image.toPhMappedImage + 1 < count then checkSum / 2 ^ 16 else 0) := by
  obtain ⟨hlow, hhigh⟩ := image.fieldWords hc
  obtain ⟨hlow0, hhigh0⟩ := image.fieldWords (show 0 < 2 ^ 32 by decide)
  induction count with
  | zero => rfl
  | succ count ih =>
      rw [wordsTotal] at ih ⊢
      rw [List.range_succ, List.map_append, List.sum_append, ih, List.map_append, List.sum_append,
        List.map_singleton, List.map_singleton, List.sum_singleton, List.sum_singleton,
        Nat.zero_add]
      rcases eq_or_ne count (checkSumIndex image.toPhMappedImage) with heq | hne
      · rw [heq, hlow, hlow0, if_neg (lt_irrefl _), if_neg (by omega), if_pos (by omega),
          if_neg (by omega)]
        omega
      · rcases eq_or_ne count (checkSumIndex image.toPhMappedImage + 1) with heq' | hne'
        · rw [heq', hhigh, hhigh0, if_pos (by omega), if_neg (by omega), if_pos (by omega),
            if_pos (by omega)]
          omega
        · rw [image.otherWord checkSum hne hne', image.otherWord 0 hne hne']
          split
          · split
            · rw [if_pos (by omega), if_pos (by omega)]
              omega
            · rw [if_pos (by omega), if_neg (by omega)]
              omega
          · rw [if_neg (by omega), if_neg (by omega), if_neg (by omega)]
            omega

theorem wordsTotal_append (image : PhMappedImage) (m : Mem) (first count rest : Nat) :
    wordsTotal image m first (count + rest) =
      wordsTotal image m first count + wordsTotal image m (first + count) rest := by
  rw [wordsTotal, List.range_add, List.map_append, List.sum_append, List.map_map, wordsTotal,
    wordsTotal]
  congr 2
  refine List.map_congr_left fun i _ => ?_
  show imageWord image _ (first + (count + i)) = imageWord image _ (first + count + i)
  rw [Nat.add_assoc]

/-! ## The checksum -/

/-- What the words come to with the field added and taken away. -/
def partialSumOf (image : PhMappedImage) (m : Mem) (checkSum : Nat) : Nat :=
  subBorrow (2 ^ 16) (subBorrow (2 ^ 16)
    (digitOf (2 ^ 16) (wordsTotal image m 0 (checkSumCount image) +
      (if checkSumIndex image < checkSumCount image then checkSum % 2 ^ 16 else 0) +
      (if checkSumIndex image + 1 < checkSumCount image then checkSum / 2 ^ 16 else 0)))
    (checkSum % 2 ^ 16)) (checkSum / 2 ^ 16)

theorem EvenImage.checkSum_stored (image : EvenImage m) {checkSum : Nat} (hc : checkSum < 2 ^ 32) :
    phCheckSumMappedImage image.toPhMappedImage (storeCheckSum image.toPhMappedImage checkSum m) =
      (partialSumOf image.toPhMappedImage m checkSum + image.view.size % 2 ^ 32) % 2 ^ 32 := by
  obtain ⟨hlow, hhigh⟩ := image.fieldWords hc
  have hindex := image.index_eq.1
  rw [imageWord, hindex] at hlow
  rw [imageWord, show image.view.base + 2 * (checkSumIndex image.toPhMappedImage + 1) =
    image.ntHeaders + offsetCheckSum + 2 by omega] at hhigh
  have hsum : ((List.range (checkSumCount image.toPhMappedImage)).map fun i =>
      field (storeCheckSum image.toPhMappedImage checkSum m) (image.view.base + 2 * i) 2).sum = _ :=
    image.sum_stored hc (checkSumCount image.toPhMappedImage)
  have hlt := digitOf_lt (b := 2 ^ 16) (by decide)
  simp only [phCheckSumMappedImage]
  rw [phCheckSum_eq, hsum, hlow, hhigh, subtractWithCarry_eq (hlt _) (by omega),
    subtractWithCarry_eq (subBorrow_lt (hlt _)) (by omega)]
  rfl

theorem partialSumOf_lt (image : PhMappedImage) (m : Mem) (checkSum : Nat) :
    partialSumOf image m checkSum < 2 ^ 16 :=
  subBorrow_lt (subBorrow_lt (digitOf_lt (by decide) _))

theorem partialSumOf_mod {image : PhMappedImage} {checkSum : Nat} (hc : checkSum < 2 ^ 32)
    (hcounted : checkSumIndex image + 2 ≤ checkSumCount image) :
    partialSumOf image m checkSum % (2 ^ 16 - 1) =
      wordsTotal image m 0 (checkSumCount image) % (2 ^ 16 - 1) := by
  refine subBorrow_subBorrow_mod (Nat.mod_lt _ (by decide)) (by omega) ?_
  rw [if_pos (by omega), if_pos (by omega)]
  exact digitOf_mod _

theorem EvenImage.count_le (image : EvenImage m) :
    checkSumCount image.toPhMappedImage ≤ image.view.size / 2 := by
  have heven := image.even_size
  have hmod := Nat.mod_le (image.view.size + 1) (2 ^ 32)
  rw [checkSumCount]
  omega

theorem EvenImage.sum_all (image : EvenImage m) :
    EndAround.sum (2 ^ 16) ((List.range (image.view.size / 2)).map
      (imageWord image.toPhMappedImage (storeCheckSum image.toPhMappedImage 0 m))) =
      digitOf (2 ^ 16)
        (wordsTotal image.toPhMappedImage m 0 (checkSumCount image.toPhMappedImage) +
          wordsTotal image.toPhMappedImage m (checkSumCount image.toPhMappedImage)
            (image.view.size / 2 - checkSumCount image.toPhMappedImage)) := by
  have hwords : ∀ a ∈ (List.range (image.view.size / 2)).map
      (imageWord image.toPhMappedImage (storeCheckSum image.toPhMappedImage 0 m)), a < 2 ^ 16 := by
    intro a ha
    obtain ⟨i, -, rfl⟩ := List.mem_map.mp ha
    exact field_lt _ _ 2
  have htotal : ((List.range (image.view.size / 2)).map
      (imageWord image.toPhMappedImage (storeCheckSum image.toPhMappedImage 0 m))).sum =
      wordsTotal image.toPhMappedImage m 0 (image.view.size / 2) := by
    simp only [wordsTotal, Nat.zero_add]
  have hsplit := wordsTotal_append image.toPhMappedImage m 0
    (checkSumCount image.toPhMappedImage)
    (image.view.size / 2 - checkSumCount image.toPhMappedImage)
  rw [Nat.add_sub_of_le image.count_le, Nat.zero_add] at hsplit
  rw [sum_eq (by decide) hwords, htotal, ← hsplit]

theorem EvenImage.formula_iff (image : EvenImage m) {checkSum : Nat} (hc : checkSum < 2 ^ 32) :
    phCheckSumMappedImage image.toPhMappedImage (storeCheckSum image.toPhMappedImage checkSum m) =
        (image.view.size + EndAround.sum (2 ^ 16) ((List.range (image.view.size / 2)).map
          (imageWord image.toPhMappedImage (storeCheckSum image.toPhMappedImage 0 m)))) % 2 ^ 32 ↔
      partialSumOf image.toPhMappedImage m checkSum = digitOf (2 ^ 16)
        (wordsTotal image.toPhMappedImage m 0 (checkSumCount image.toPhMappedImage) +
          wordsTotal image.toPhMappedImage m (checkSumCount image.toPhMappedImage)
            (image.view.size / 2 - checkSumCount image.toPhMappedImage)) := by
  rw [image.checkSum_stored hc, image.sum_all]
  have hsums := partialSumOf_lt image.toPhMappedImage m checkSum
  have hdigit := digitOf_lt (b := 2 ^ 16) (by decide)
    (wordsTotal image.toPhMappedImage m 0 (checkSumCount image.toPhMappedImage) +
      wordsTotal image.toPhMappedImage m (checkSumCount image.toPhMappedImage)
        (image.view.size / 2 - checkSumCount image.toPhMappedImage))
  omega

theorem EvenImage.wordsTotal_pos (image : EvenImage m)
    (hcounted : checkSumIndex image.toPhMappedImage + 2 ≤ checkSumCount image.toPhMappedImage) :
    0 < wordsTotal image.toPhMappedImage m 0 (checkSumCount image.toPhMappedImage) := by
  have hindex := image.index_eq.2
  have hfirst : imageWord image.toPhMappedImage (storeCheckSum image.toPhMappedImage 0 m) (0 + 0) =
      imageDosSignature := by
    rw [image.otherWord 0 (by omega) (by omega)]
    exact image.dosSignature
  have hsplit := wordsTotal_append image.toPhMappedImage m 0 1
    (checkSumCount image.toPhMappedImage - 1)
  rw [Nat.add_sub_of_le (by omega), wordsTotal, wordsTotal, List.range_one, List.map_singleton,
    List.sum_singleton, hfirst, ← wordsTotal] at hsplit
  rw [hsplit, imageDosSignature]
  omega

theorem EvenImage.agrees_of_regular (image : EvenImage m)
    (h : CheckSumRegular m image.toPhMappedImage) : CheckSumAgrees m image.toPhMappedImage := by
  have hmultiple : wordsTotal image.toPhMappedImage m 0 (checkSumCount image.toPhMappedImage) %
      (2 ^ 16 - 1) ≠ 0 := mt Nat.dvd_of_mod_eq_zero h.not_multiple
  have hleft := Nat.mod_eq_zero_of_dvd h.left_out
  have hsums : ∀ checkSum < 2 ^ 32, partialSumOf image.toPhMappedImage m checkSum =
      wordsTotal image.toPhMappedImage m 0 (checkSumCount image.toPhMappedImage) % (2 ^ 16 - 1) :=
    fun checkSum hc => eq_mod_of_mod_eq (partialSumOf_lt _ m checkSum) hmultiple
      (partialSumOf_mod hc h.counted)
  refine ⟨?_, ?_⟩
  · intro checkSum hc
    have hself := image.checkSum_stored (field_lt m (image.ntHeaders + offsetCheckSum) 4)
    rw [storeCheckSum, Store.apply_field_self] at hself
    rw [image.checkSum_stored hc, hself, hsums checkSum hc, hsums _ (field_lt m _ 4)]
  · intro checkSum hc
    rw [image.formula_iff hc, hsums checkSum hc, digitOf_eq_mod _ (by decide)]
    · omega
    · omega

theorem partialSumOf_zero (image : PhMappedImage) (m : Mem) :
    partialSumOf image m 0 = digitOf (2 ^ 16) (wordsTotal image m 0 (checkSumCount image)) := by
  simp only [partialSumOf, Nat.zero_mod, Nat.zero_div, ite_self, Nat.add_zero]
  rfl

theorem partialSumOf_high {image : PhMappedImage}
    (hnot : ¬ checkSumIndex image + 1 < checkSumCount image) :
    partialSumOf image m (2 ^ 16) ≠ partialSumOf image m 0 := by
  rw [partialSumOf_zero, partialSumOf, if_neg hnot, show 2 ^ 16 % 2 ^ 16 = 0 from rfl,
    show 2 ^ 16 / 2 ^ 16 = 1 from rfl, ite_self, Nat.add_zero]
  generalize digitOf _ _ = digit
  rw [show subBorrow (2 ^ 16) digit 0 = digit from rfl, subBorrow]
  split <;> omega

theorem partialSumOf_one {image : PhMappedImage}
    (hcounted : checkSumIndex image < checkSumCount image)
    (hpos : 0 < wordsTotal image m 0 (checkSumCount image))
    (hmultiple : 65535 ∣ wordsTotal image m 0 (checkSumCount image)) :
    partialSumOf image m 1 ≠ partialSumOf image m 0 := by
  obtain ⟨k, hk⟩ := hmultiple
  have hfull : 65535 * k % (2 ^ 16 - 1) = 0 := Nat.mul_mod_right 65535 k
  have hborrow : subBorrow (2 ^ 16) (subBorrow (2 ^ 16) 1 1) 0 = 0 := rfl
  rw [partialSumOf_zero, partialSumOf, if_pos hcounted, show 1 % 2 ^ 16 = 1 from rfl,
    show 1 / 2 ^ 16 = 0 from rfl, ite_self, Nat.add_zero, digitOf, if_neg (by omega), digitOf,
    if_neg (by omega), hk, Nat.add_sub_cancel, hfull, Nat.zero_add, hborrow]
  omega

theorem EvenImage.regular_of_agrees (image : EvenImage m)
    (h : CheckSumAgrees m image.toPhMappedImage) : CheckSumRegular m image.toPhMappedImage := by
  have hsums : ∀ checkSum < 2 ^ 32, partialSumOf image.toPhMappedImage m checkSum = _ :=
    fun checkSum hc => (image.formula_iff hc).mp (h.formula checkSum hc)
  have hzero := hsums 0 (by decide)
  have hcounted :
      checkSumIndex image.toPhMappedImage + 2 ≤ checkSumCount image.toPhMappedImage := by
    by_contra hnot
    exact partialSumOf_high (by omega) ((hsums (2 ^ 16) (by decide)).trans hzero.symm)
  refine ⟨hcounted, fun hmultiple => ?_, ?_⟩
  · exact partialSumOf_one (by omega) (image.wordsTotal_pos hcounted) hmultiple
      ((hsums 1 (by decide)).trans hzero.symm)
  · rw [partialSumOf_zero] at hzero
    have hmod := congrArg (· % (2 ^ 16 - 1)) hzero
    simp only [digitOf_mod] at hmod
    exact Nat.dvd_of_mod_eq_zero (by omega)

/-- The checksum does not see the stored one exactly when the image is regular. -/
theorem phCheckSumMappedImage_agrees_iff (image : EvenImage m) :
    CheckSumAgrees m image.toPhMappedImage ↔ CheckSumRegular m image.toPhMappedImage :=
  ⟨image.regular_of_agrees, image.agrees_of_regular⟩

/-- A file whose words add up to `65535` and the checksum to nothing. -/
def foldingFile : Mem :=
  fileMem [(0, 2, imageDosSignature), (60, 4, 64), (64, 4, imageNtSignature), (72, 2, 0x5d97),
    (84, 2, 0x60), (88, 2, imageNtOptionalHdr64Magic), (182, 2, 0x20)]

def foldingImage : EvenImage foldingFile where
  view := smallView 184 (by omega)
  magic := imageNtOptionalHdr64Magic
  ntHeaders := 0x10040
  numberOfSections := 0
  sections := 0x100b8
  accepted := by decide +kernel
  even_size := rfl
  even_offset := rfl

theorem phCheckSumMappedImage_seesField :
    phCheckSumMappedImage foldingImage.toPhMappedImage foldingFile = 184 + 65535 ∧
      phCheckSumMappedImage foldingImage.toPhMappedImage
        (storeCheckSum foldingImage.toPhMappedImage 5 foldingFile) = 184 ∧
      ¬ CheckSumAgrees foldingFile foldingImage.toPhMappedImage := by
  have hnone : phCheckSumMappedImage foldingImage.toPhMappedImage foldingFile = 184 + 65535 := by
    decide +kernel
  have hfive : phCheckSumMappedImage foldingImage.toPhMappedImage
      (storeCheckSum foldingImage.toPhMappedImage 5 foldingFile) = 184 := by decide +kernel
  refine ⟨hnone, hfive, fun h => ?_⟩
  have hsame := h.unchanged 5 (by decide)
  rw [hnone, hfive] at hsame
  exact absurd hsame (by decide)

end SystemInformer.PhLib
