import SystemInformer.PhLib.MappedArchive
import SystemInformer.Proofs.MappedImage
import SystemInformer.Proofs.StringCopy
import SystemInformer.Proofs.StringInteger

/-!
# Walking an archive

Every header is probed before it is read, so nothing outside the view is read, and every header is
at least 60 bytes behind the one before, so a walk ends. What a member says of itself is another
matter. The size in a header has ten digits and is stored in 32 bits. A name that stands among the
long names is a pointer into them, and nobody looks for its terminator; and where a third member has
been filled in, its data pass for the long names, whatever it is.
-/

namespace SystemInformer.PhLib

open Bytes

/-! ## Numbers in text -/

def decimalOf (digits : List UInt8) : Nat :=
  digits.foldl (fun n c => n * 10 + (c.toNat - 0x30)) 0

theorem isdigit_iff (c : UInt8) : isdigit c = true ↔ 0x30 ≤ c.toNat ∧ c.toNat ≤ 0x39 := by
  rw [isdigit, Bool.and_eq_true, decide_eq_true_iff, decide_eq_true_iff, UInt8.le_iff_toNat_le,
    UInt8.le_iff_toNat_le]
  rfl

theorem iswdigit_c1uTo2 (c : UInt8) : iswdigit (c1uTo2 c) = isdigit c := by
  have hc := c.toNat_lt
  rw [Bool.eq_iff_iff, isdigit_iff, iswdigit, Bool.and_eq_true, decide_eq_true_iff,
    decide_eq_true_iff, UInt16.le_iff_toNat_le, UInt16.le_iff_toNat_le, c1uTo2,
    UInt16.toNat_ofNat', Nat.mod_eq_of_lt (by omega)]
  rfl

theorem c1uTo2_eq_zero_iff (c : UInt8) : c1uTo2 c = 0 ↔ c = 0 := by
  have hc := c.toNat_lt
  rw [← UInt16.toNat_inj, ← UInt8.toNat_inj, c1uTo2, UInt16.toNat_ofNat',
    Nat.mod_eq_of_lt (by omega)]
  rfl

theorem ne_zero_of_isdigit {c : UInt8} (h : isdigit c = true) : c ≠ 0 := by
  rintro rfl
  exact absurd h (by decide)

theorem takeWhile_map_append {α β : Type} {f : α → β} {p : β → Bool} {x : β} (hx : p x = false)
    (l : List α) (rest : List β) :
    (l.map f ++ x :: rest).takeWhile p = (l.takeWhile (p ∘ f)).map f := by
  induction l with
  | nil => rw [List.map_nil, List.nil_append, List.takeWhile_cons_of_neg (by rw [hx]; decide),
      List.takeWhile_nil, List.map_nil]
  | cons a l ih =>
      rw [List.map_cons, List.cons_append, List.takeWhile_cons, List.takeWhile_cons]
      show _ = List.map f (if p (f a) = true then _ else _)
      split
      · rw [ih, List.map_cons]
      · rfl

theorem integerStringOf_eq (input : CopyInput UInt8 1) :
    integerStringOf input = if input.chars.length ≤ 10 then
      some (input.chars.map c1uTo2 ++ 0 :: (List.replicate 11 0).drop (input.chars.length + 1))
    else none := by
  have h := phCopyStringZFromBytes_meets input ⟨some (List.replicate 11 0), 11, false,
    fun _ h => Option.some.inj h ▸ List.length_replicate⟩
  rw [integerStringOf]
  by_cases hle : input.chars.length ≤ 10
  · have hcopied := h.copied.mpr ⟨Option.some_ne_none _, Nat.succ_le_succ hle⟩
    rw [if_pos hle]
    exact (if_pos hcopied).trans (h.written hcopied _ rfl)
  · have hcopied : (phCopyStringZFromBytes input ⟨some (List.replicate 11 0), 11, false,
        fun _ h => Option.some.inj h ▸ List.length_replicate⟩).copied ≠ true :=
      fun hcopied => hle (Nat.le_of_succ_le_succ (h.copied.mp hcopied).2)
    rw [if_neg hle]
    exact if_neg hcopied

theorem digit_eq_digitChar {c : UInt8} (h : isdigit c = true) :
    c1uTo2 c = digitChar (c.toNat - 0x30) := by
  obtain ⟨hlow, hhigh⟩ := (isdigit_iff c).mp h
  have hdigits : ∀ d < 10, digitChar d = UInt16.ofNat (d + 0x30) := by decide
  rw [hdigits _ (by omega), c1uTo2, Nat.sub_add_cancel hlow]

theorem decimalOf_eq_horner (digits : List UInt8) :
    decimalOf digits = horner 10 (digits.map fun c => c.toNat - 0x30) 0 := by
  rw [decimalOf, horner, List.foldl_map]

theorem integer64Of_digits {digits : List UInt8} (h : ∀ c ∈ digits, isdigit c = true)
    (hlength : digits.length ≤ 10) :
    integer64Of (digits.map c1uTo2) = some (decimalOf digits) := by
  have hmap : digits.map c1uTo2 = (digits.map fun c => c.toNat - 0x30).map digitChar := by
    rw [List.map_map]
    exact List.map_congr_left fun c hc => digit_eq_digitChar (h c hc)
  have hds : ∀ d ∈ digits.map fun c => c.toNat - 0x30, d < 10 := by
    intro d hd
    obtain ⟨c, hc, rfl⟩ := List.mem_map.mp hd
    have hdigit := (isdigit_iff c).mp (h c hc)
    omega
  have hlt := horner_lt _ hds
  have hpow : 10 ^ (digits.map fun c => c.toNat - 0x30).length ≤ 10 ^ 10 :=
    Nat.pow_le_pow_right (by decide) (by rwa [List.length_map])
  rw [hmap, decimalOf_eq_horner]
  generalize digits.map (fun c => c.toNat - 0x30) = ds at hds hlt hpow
  have hsign : skipSign (ds.map digitChar) = (false, ds.map digitChar) := by
    cases ds with
    | nil => rfl
    | cons d ds =>
        have hd := hds d List.mem_cons_self
        rw [skipSign_digits (by omega), if_neg (by omega)]
  have hbase : 10 = 0 ∨ 2 ≤ 10 ∧ 10 ≤ 69 := Or.inr (by decide)
  rw [integer64Of, (phStringToInteger64_digits hbase hds hsign rfl).1]
  show some (BitVec.toNat (if false = true then _ else _)) = _
  rw [if_neg Bool.false_ne_true, BitVec.toNat_ofNat]
  exact congrArg some (Nat.mod_eq_of_lt (lt_of_lt_of_le hlt (hpow.trans (by decide))))

abbrev digitsOfText (text : List UInt8) : List UInt8 := text.takeWhile isdigit

theorem takeWhile_digits_of_chars (text : List UInt8) :
    (text.takeWhile (· ≠ 0)).takeWhile isdigit = digitsOfText text := by
  induction text with
  | nil => rfl
  | cons c text ih =>
      rw [digitsOfText, List.takeWhile_cons, List.takeWhile_cons]
      cases hc : isdigit c with
      | false =>
          split
          · rw [List.takeWhile_cons, hc]
            rfl
          · rfl
      | true =>
          rw [if_pos (by simpa using ne_zero_of_isdigit hc), List.takeWhile_cons, hc, if_pos rfl,
            if_pos rfl, ih]

theorem memberSizeOf_eq (text : Vector UInt8 10) :
    memberSizeOf text = some (decimalOf (digitsOfText text.toList)) := by
  have hchars : (fieldInput text (by decide)).chars = text.toList.takeWhile (· ≠ 0) := by
    rw [CopyInput.chars]
    show (text.toList.take 10).takeWhile _ = _
    rw [List.take_of_length_le (Nat.le_of_eq text.length_toList)]
  have hlength : (text.toList.takeWhile (· ≠ 0)).length ≤ 10 :=
    (List.takeWhile_prefix _).length_le.trans (Nat.le_of_eq text.length_toList)
  have hdigit : iswdigit ∘ c1uTo2 = isdigit := funext iswdigit_c1uTo2
  rw [memberSizeOf, integerStringOf_eq, hchars, if_pos hlength]
  show integer64Of (List.takeWhile iswdigit _) = _
  rw [takeWhile_map_append (by decide), hdigit, takeWhile_digits_of_chars]
  refine integer64Of_digits (fun c hc => List.mem_takeWhile_imp hc) ?_
  exact (List.takeWhile_prefix _).length_le.trans (Nat.le_of_eq text.length_toList)

/-! ## Names -/

/-- The characters of the `Name` field. -/
abbrev nameChars (text : List UInt8) : List UInt8 := text.takeWhile (· ≠ 0)

/-- The offset that stands for a name, where a slash with digits behind it does. -/
def nameOffset (text : List UInt8) : Option Nat :=
  match (nameChars text).findIdx? (· == 0x2f) with
  | none => none
  | some slash =>
      let digits := digitsOfText ((nameChars text).drop (slash + 1))
      if slash = 0 ∨ digits = [] then none else some (decimalOf digits)

theorem nameBufferOf_eq (text : Vector UInt8 16) :
    ∃ nameBuffer rest, nameBufferOf text = some nameBuffer ∧
      nameBuffer.toList = nameChars text.toList ++ 0 :: rest := by
  have hchars : (fieldInput text (le_refl _)).chars = nameChars text.toList := by
    rw [CopyInput.chars]
    show (text.toList.take 16).takeWhile _ = _
    rw [List.take_of_length_le (Nat.le_of_eq text.length_toList)]
  have hlength : (nameChars text.toList).length ≤ 16 :=
    (List.takeWhile_prefix _).length_le.trans (Nat.le_of_eq text.length_toList)
  have h := phCopyBytesZ_meets (fieldInput text (le_refl _)) ⟨some (List.replicate 20 0), 20, false,
    fun _ h => Option.some.inj h ▸ List.length_replicate⟩
  have hcopied := h.copied.mpr ⟨Option.some_ne_none _, by
    rw [hchars]
    exact Nat.succ_le_of_lt (Nat.lt_of_le_of_lt hlength (by decide))⟩
  have hwritten := h.written hcopied _ rfl
  rw [hchars, List.map_id] at hwritten
  refine ⟨_, (List.replicate 20 0).drop ((nameChars text.toList).length + 1),
    if_pos hcopied, ?_⟩
  rw [Vector.toList_ofFn, hwritten, Option.getD_some]
  refine List.ext_getElem ?_ fun i h₁ h₂ => ?_
  · rw [List.length_ofFn, List.length_append, List.length_cons, List.length_drop,
      List.length_replicate]
    omega
  · rw [List.getElem_ofFn, List.getD_eq_getElem]

theorem takeWhile_append_zero {p : UInt8 → Bool} (hp : p 0 = false) (l rest : List UInt8) :
    (l ++ 0 :: rest).takeWhile p = l.takeWhile p := by
  have h := takeWhile_map_append (f := id) hp l rest
  rwa [List.map_id, List.map_id, Function.comp_id] at h

section NameBuffer

variable {text : Vector UInt8 16} {nameBuffer : Vector UInt8 20} {rest : List UInt8} {slash : Nat}

theorem slashOf_eq (h : nameBuffer.toList = nameChars text.toList ++ 0 :: rest) :
    slashOf nameBuffer = (nameChars text.toList).findIdx? (· == 0x2f) := by
  have hself : (nameChars text.toList).takeWhile (· ≠ 0) = nameChars text.toList :=
    List.takeWhile_eq_self_iff.mpr fun c hc => by simpa using List.mem_takeWhile_imp hc
  rw [slashOf, h, takeWhile_append_zero (by decide), hself]

theorem slashOf_lt (h : nameBuffer.toList = nameChars text.toList ++ 0 :: rest)
    (hslash : slashOf nameBuffer = some slash) : slash < (nameChars text.toList).length := by
  rw [slashOf_eq h] at hslash
  exact (List.findIdx?_eq_some_iff_findIdx_eq.mp hslash).1

theorem digitsBehind_eq (h : nameBuffer.toList = nameChars text.toList ++ 0 :: rest)
    (hslash : slashOf nameBuffer = some slash) :
    digitsBehind nameBuffer slash = digitsOfText ((nameChars text.toList).drop (slash + 1)) := by
  rw [digitsBehind, h, List.drop_append_of_le_length (slashOf_lt h hslash),
    takeWhile_append_zero (by decide)]

theorem isdigit_getD_iff (l : List UInt8) (k : Nat) :
    isdigit (l.getD k 0) = true ↔ digitsOfText (l.drop k) ≠ [] := by
  cases hl : l.drop k with
  | nil =>
      rw [List.getD_eq_default _ _ (List.drop_eq_nil_iff.mp hl)]
      exact iff_of_false (by decide) fun h => h rfl
  | cons c rest =>
      have hk : k < l.length := by
        by_contra hk
        rw [List.drop_eq_nil_iff.mpr (Nat.le_of_not_lt hk)] at hl
        cases hl
      have hhead := List.drop_eq_getElem_cons hk
      rw [hl] at hhead
      rw [List.getD_eq_getElem _ _ hk, ← (List.cons.inj hhead).1, digitsOfText, List.takeWhile_cons]
      split
      · next hc => exact iff_of_true hc (List.cons_ne_nil _ _)
      · next hc => exact iff_of_false hc fun h => h rfl

theorem zero_mem_set {i : Nat} (hi : i < 20) : 0 ∈ (nameBuffer.setIfInBounds i 0).toList := by
  have hset : (nameBuffer.setIfInBounds i 0)[i] = 0 := by simp
  have hmem : (nameBuffer.setIfInBounds i 0)[i] ∈ nameBuffer.setIfInBounds i 0 :=
    Vector.getElem_mem hi
  rw [hset] at hmem
  exact Vector.mem_toList_iff.mpr hmem

end NameBuffer

/-- What a name comes to, given where the long names are. -/
def NameParsed (text : List UInt8) (longnamesMember member : PhMappedArchiveMember) : Prop :=
  (nameOffset text = none ∧ member.name = .nameBuffer ∧ 0 ∈ member.nameBuffer.toList) ∨
    ∃ offset, nameOffset text = some offset ∧ longnamesMember.header ≠ 0 ∧
      offset % 2 ^ 32 < longnamesMember.size ∧
      member.name = .pointer (ptrAddOffset longnamesMember.data (offset % 2 ^ 32))

theorem NameParsed.congr {text : List UInt8} {names names' member : PhMappedArchiveMember}
    (h : NameParsed text names member) (hheader : names.header = names'.header)
    (hdata : names.data = names'.data) (hsize : names.size = names'.size) :
    NameParsed text names' member := by
  rcases h with h | ⟨offset, hoffset, hne, hlt, hname⟩
  · exact Or.inl h
  · exact Or.inr ⟨offset, hoffset, hheader ▸ hne, hsize ▸ hlt, hdata ▸ hname⟩

theorem integerStringOf_digits {digits : List UInt8} (h : ∀ c ∈ digits, isdigit c = true)
    (hlength : digits.length ≤ 20) :
    (integerStringOf (digitsInput digits hlength)).elim none
        (fun integerString => integer64Of (integerString.takeWhile (· ≠ 0))) =
      if digits.length ≤ 10 then some (decimalOf digits) else none := by
  have hall : digits.takeWhile (· ≠ 0) = digits :=
    List.takeWhile_eq_self_iff.mpr fun c hc => by simpa using ne_zero_of_isdigit (h c hc)
  have hchars : (digitsInput digits hlength).chars = digits := by
    rw [CopyInput.chars]
    show ((digits ++ [0]).take sizeMax).takeWhile _ = _
    have hle : (digits ++ [0]).length ≤ sizeMax := by
      rw [List.length_append]
      exact (Nat.add_le_add_right hlength 1).trans (by decide)
    rw [List.take_of_length_le hle, takeWhile_append_zero (by decide), hall]
  rw [integerStringOf_eq, hchars]
  split
  · next hle =>
      rw [Option.elim_some, takeWhile_map_append (by decide)]
      have htake : digits.takeWhile ((fun c : WChar => decide (c ≠ 0)) ∘ c1uTo2) = digits := by
        refine List.takeWhile_eq_self_iff.mpr fun c hc => ?_
        have hne := mt (c1uTo2_eq_zero_iff c).mp (ne_zero_of_isdigit (h c hc))
        exact decide_eq_true hne
      rw [htake, integer64Of_digits h hle]
  · rfl

theorem parseMemberName_accepted {longnamesMember member member' : PhMappedArchiveMember}
    {text : Vector UInt8 16} {status : NtStatus}
    (h : parseMemberName longnamesMember member text = (status, member'))
    (hstatus : ntSuccess status = true) :
    member'.header = member.header ∧ member'.data = member.data ∧ member'.size = member.size ∧
      NameParsed text.toList longnamesMember member' := by
  have hrefused : ∀ {m : PhMappedArchiveMember}, (statusInvalidParameter, m) ≠ (status, member') :=
    fun heq => absurd ((Prod.mk.inj heq).1 ▸ hstatus) (by decide)
  obtain ⟨nameBuffer, rest, hbuffer, hchars⟩ := nameBufferOf_eq text
  rw [parseMemberName, hbuffer] at h
  dsimp only at h
  cases hslash : slashOf nameBuffer with
  | none =>
      rw [hslash] at h
      exact absurd h hrefused
  | some slash =>
      have hlt := slashOf_lt hchars hslash
      have hbehind := digitsBehind_eq hchars hslash
      have hlength : (nameChars text.toList).length ≤ 16 :=
        (List.takeWhile_prefix _).length_le.trans (Nat.le_of_eq text.length_toList)
      have hoffset : nameOffset text.toList = if slash = 0 ∨ digitsBehind nameBuffer slash = []
          then none else some (decimalOf (digitsBehind nameBuffer slash)) := by
        rw [nameOffset, ← slashOf_eq hchars, hslash, hbehind]
      rw [hslash] at h
      dsimp only at h
      by_cases hfirst : slash = 0
      · rw [if_pos hfirst] at h
        rw [if_pos (Or.inl hfirst)] at hoffset
        split at h
        · obtain ⟨-, rfl⟩ := Prod.mk.inj h
          exact ⟨rfl, rfl, rfl, Or.inl ⟨hoffset, rfl, zero_mem_set (by decide)⟩⟩
        · obtain ⟨-, rfl⟩ := Prod.mk.inj h
          exact ⟨rfl, rfl, rfl, Or.inl ⟨hoffset, rfl, zero_mem_set (by decide)⟩⟩
      · rw [if_neg hfirst] at h
        have hdigit := isdigit_getD_iff nameBuffer.toList (slash + 1)
        by_cases hdigits : digitsBehind nameBuffer slash = []
        · rw [if_neg (mt hdigit.mp (not_not.mpr hdigits))] at h
          rw [if_pos (Or.inr hdigits)] at hoffset
          obtain ⟨-, rfl⟩ := Prod.mk.inj h
          exact ⟨rfl, rfl, rfl, Or.inl ⟨hoffset, rfl, zero_mem_set (by omega)⟩⟩
        · rw [if_pos (hdigit.mpr hdigits)] at h
          rw [if_neg (not_or.mpr ⟨hfirst, hdigits⟩)] at hoffset
          have hread := integerStringOf_digits
            (show ∀ c ∈ digitsBehind nameBuffer slash, _ from fun c hc => List.mem_takeWhile_imp hc)
            (digitsBehind_length nameBuffer slash)
          split at h
          · exact absurd h hrefused
          · next hheader =>
              cases hinteger : integerStringOf
                  (digitsInput _ (digitsBehind_length nameBuffer slash)) with
              | none =>
                  rw [hinteger] at h
                  exact absurd h hrefused
              | some integerString =>
                  rw [hinteger, Option.elim_some] at hread
                  rw [hinteger] at h
                  dsimp only at h
                  rw [hread] at h
                  split at h
                  · exact absurd h hrefused
                  · next offset64 hsome =>
                      split at hsome
                      · obtain rfl := Option.some.inj hsome
                        split at h
                        · exact absurd h hrefused
                        · next hlt =>
                            obtain ⟨-, rfl⟩ := Prod.mk.inj h
                            exact ⟨rfl, rfl, rfl,
                              Or.inr ⟨_, hoffset, hheader, Nat.lt_of_not_le hlt, rfl⟩⟩
                      · cases hsome

/-! ## Members -/

variable {m : Mem} {view : ImageView} {a n : Nat}

@[simp] theorem val_bytesAt_bind {β : Type} (f : Vector UInt8 n → ImageReader β) :
    (bytesAt a n >>= f).val m = (f ⟨(load m a n).toArray, by simp⟩).val m := rfl

theorem safe_bytesAt_bind_iff {ok : Access ReadKind → Prop} {β : Type}
    {f : Vector UInt8 n → ImageReader β} :
    (bytesAt a n >>= f).Safe ok m ↔
      ok ⟨.record, a, n⟩ ∧ (f ⟨(load m a n).toArray, by simp⟩).Safe ok m := by
  have hsafe : (bytesAt a n).Safe ok m ↔ ok ⟨.record, a, n⟩ := by
    constructor
    · intro h
      exact h _ List.mem_cons_self
    · intro h r hr
      rw [List.mem_singleton.mp hr]
      exact h
  rw [Checked.safe_bind_iff, hsafe]
  refine and_congr_right fun _ => ⟨fun h => h _ rfl, fun h v hv => ?_⟩
  obtain rfl := Except.ok.inj hv
  exact h

/-- The digits in the `Size` field of the header at an address. -/
def sizeDigits (m : Mem) (header : Nat) : List UInt8 :=
  digitsOfText (load m (header + offsetMemberSize) 10)

/-- What is known of a member that is returned for the header at an address. -/
structure MemberParsed (m : Mem) (view : ImageView) (longnamesMember : Option PhMappedArchiveMember)
    (header : Nat) (member : PhMappedArchiveMember) : Prop where
  header_held : view.Holds header sizeofImageArchiveMemberHeader
  header_eq : member.header = header
  data_eq : member.data = header + sizeofImageArchiveMemberHeader
  size_eq : member.size = decimalOf (sizeDigits m header) % 2 ^ 32
  data_held : view.Holds member.data member.size
  name : NameParsed (load m header 16) (longnamesMember.getD member) member

variable {member member' : PhMappedArchiveMember}

theorem memberParsed_of_ok {longnamesMember : Option PhMappedArchiveMember} {header : Nat} {status : NtStatus}
    (h : (phpGetMappedArchiveMemberFromHeader view longnamesMember header member).val m =
      .ok (status, member'))
    (hstatus : ntSuccess status = true) :
    MemberParsed m view longnamesMember header member' := by
  have hfits := view.fits
  have hrefused : ∀ {status' : NtStatus} {member : PhMappedArchiveMember},
      ntSuccess status' = false →
        (pure (status', member) : ImageReader _).val m ≠ .ok (status, member') := by
    intro status' member hfalse heq
    obtain ⟨rfl, -⟩ := Prod.mk.inj (Except.ok.inj heq)
    rw [hfalse] at hstatus
    cases hstatus
  rw [phpGetMappedArchiveMemberFromHeader] at h
  split at h
  · exact absurd h (hrefused (by decide))
  · split at h
    · exact absurd h (hrefused (by decide))
    · next hprobe =>
        have hheld := (ImageView.probes_iff (by decide) (by decide)).mp (not_not.mp hprobe)
        have hlo := hheld.1
        have hhi := hheld.2
        have hdata : ptrAddOffset header sizeofImageArchiveMemberHeader =
            header + sizeofImageArchiveMemberHeader := Nat.mod_eq_of_lt (by omega)
        rw [val_bytesAt_bind, memberSizeOf_eq, hdata] at h
        dsimp only at h
        split at h
        · exact absurd h (hrefused (by decide))
        · next hsized =>
            rw [val_bytesAt_bind] at h
            obtain ⟨hheader, hdata', hsize, hname⟩ :=
              parseMemberName_accepted (Except.ok.inj h) hstatus
            have hsize' : member'.size = decimalOf (sizeDigits m header) % 2 ^ 32 := hsize
            have hsized' : view.Probes (header + sizeofImageArchiveMemberHeader)
                (decimalOf (sizeDigits m header) % 2 ^ 32) := not_not.mp hsized
            refine ⟨hheld, hheader, hdata', hsize', ?_, ?_⟩
            · rw [hdata', hsize']
              rcases Nat.eq_zero_or_pos (decimalOf (sizeDigits m header) % 2 ^ 32) with hzero | hpos
              · rw [hzero]
                exact ⟨by dsimp only; omega, hhi⟩
              · exact (ImageView.probes_iff hpos (by omega)).mp hsized'
            · cases longnamesMember with
              | none => exact hname.congr hheader.symm hdata'.symm hsize.symm
              | some names => exact hname

theorem safe_memberFromHeader (longnamesMember : Option PhMappedArchiveMember) (header : Nat)
    (member : PhMappedArchiveMember) :
    (phpGetMappedArchiveMemberFromHeader view longnamesMember header member).Safe view.Allows m := by
  rw [phpGetMappedArchiveMemberFromHeader]
  refine Checked.Safe.ite (fun _ => Checked.safe_pure _) fun _ =>
    Checked.Safe.ite (fun _ => Checked.safe_pure _) fun hprobe => ?_
  obtain ⟨hlo, hhi⟩ := (ImageView.probes_iff (by decide) (by decide)).mp (not_not.mp hprobe)
  simp only [sizeofImageArchiveMemberHeader] at hhi
  rw [safe_bytesAt_bind_iff, memberSizeOf_eq]
  refine ⟨fun _ => ⟨by simp only [offsetMemberSize]; omega,
    by simp only [offsetMemberSize]; omega⟩, ?_⟩
  refine Checked.Safe.ite (fun _ => Checked.safe_pure _) fun _ => ?_
  rw [safe_bytesAt_bind_iff]
  exact ⟨fun _ => ⟨hlo, by simp only; omega⟩, Checked.safe_pure _⟩

/-! ## Walks -/

def NextMember (m : Mem) (archive : PhMappedArchive) (member member' : PhMappedArchiveMember) :
    Prop :=
  ∃ nextMember status,
    (phGetNextMappedArchiveMember archive member nextMember).val m = .ok (status, member') ∧
      ntSuccess status = true

/-- The members that are returned: those of the archive, and what calls give after them. -/
inductive Returned (m : Mem) (archive : PhMappedArchive) : PhMappedArchiveMember → Prop
  | first : Returned m archive archive.firstLinkerMember
  | second : Returned m archive archive.secondLinkerMember
  | longnames (h : archive.hasLongnamesMember = true) : Returned m archive archive.longnamesMember
  | next {member member' : PhMappedArchiveMember} (h : Returned m archive member)
      (hnext : NextMember m archive member member') : Returned m archive member'

/-- So many calls lead from a member to another one. -/
inductive Calls (m : Mem) (archive : PhMappedArchive) :
    Nat → PhMappedArchiveMember → PhMappedArchiveMember → Prop
  | none (member : PhMappedArchiveMember) : Calls m archive 0 member member
  | more {n : Nat} {member member' member'' : PhMappedArchiveMember}
      (h : Calls m archive n member member') (hnext : NextMember m archive member' member'') :
      Calls m archive (n + 1) member member''

def NamesHold (m : Mem) (archive : PhMappedArchive) (offset : Nat) : Prop :=
  archive.hasLongnamesMember = true ∧
    ∃ k, offset ≤ k ∧ k < archive.longnamesMember.size ∧ m (archive.longnamesMember.data + k) = 0

structure MemberMeets (m : Mem) (archive : PhMappedArchive) (member : PhMappedArchiveMember) :
    Prop where
  header_held : archive.view.Holds member.header sizeofImageArchiveMemberHeader
  data_eq : member.data = member.header + sizeofImageArchiveMemberHeader
  data_held : archive.view.Holds member.data member.size
  size : sizeDigits m member.header ≠ [] ∧ member.size = decimalOf (sizeDigits m member.header)
  name_buffer : member.name = .nameBuffer → 0 ∈ member.nameBuffer.toList
  name_pointer : ∀ pointer, member.name = .pointer pointer →
    ∃ offset, pointer = archive.longnamesMember.data + offset ∧ NamesHold m archive offset

/-- Walking an archive stays inside the view and ends, and every member is what is said of it. -/
structure ArchiveMeets (m : Mem) (view : ImageView) : Prop where
  initialize_safe : (phInitializeMappedArchive view).Safe view.Allows m
  next_safe : ∀ archive, (phInitializeMappedArchive view).val m = .ok archive →
    ∀ member nextMember, Returned m archive member →
      (phGetNextMappedArchiveMember archive member nextMember).Safe view.Allows m
  ends : ∀ archive, (phInitializeMappedArchive view).val m = .ok archive →
    ∀ n member member', Returned m archive member → Calls m archive n member member' →
      60 * n ≤ view.size
  standard : ∀ archive, (phInitializeMappedArchive view).val m = .ok archive →
    archive.firstLinkerMember.data + archive.firstLinkerMember.size ≤
        archive.secondLinkerMember.header ∧
      (archive.hasLongnamesMember = true →
        archive.secondLinkerMember.data + archive.secondLinkerMember.size ≤
          archive.longnamesMember.header)
  follows : ∀ archive, (phInitializeMappedArchive view).val m = .ok archive →
    ∀ member member', Returned m archive member → NextMember m archive member member' →
      member.data + member.size ≤ member'.header
  members : ∀ archive, (phInitializeMappedArchive view).val m = .ok archive →
    ∀ member, Returned m archive member → MemberMeets m archive member

/-- A header whose size is a number that 32 bits hold, and whose name, if it stands among the long
names, stands there in the third member, which is for them, with a terminator. -/
structure HeaderSound (m : Mem) (archive : PhMappedArchive) (header : Nat) : Prop where
  digits : sizeDigits m header ≠ []
  size_lt : decimalOf (sizeDigits m header) < 2 ^ 32
  name : ∀ offset, nameOffset (load m header 16) = some offset →
    NamesHold m archive (offset % 2 ^ 32)

theorem nextHeader_ge {member : PhMappedArchiveMember} (h : view.Holds member.data member.size) :
    member.data + member.size ≤ nextHeader member := by
  have hfits := view.fits
  have hend := h.2
  have hdata : ptrAddOffset member.data member.size = member.data + member.size :=
    Nat.mod_eq_of_lt (by omega)
  have hstep : ptrAddOffset (member.data + member.size) 1 = member.data + member.size + 1 :=
    Nat.mod_eq_of_lt (by omega)
  simp only [nextHeader]
  rw [hdata, hstep]
  split <;> omega

variable {archive : PhMappedArchive}

theorem memberParsed_of_next
    (h : NextMember m archive member member') :
    MemberParsed m archive.view (some archive.longnamesMember) (nextHeader member) member' := by
  obtain ⟨nextMember, status, hok, hstatus⟩ := h
  exact memberParsed_of_ok hok hstatus

structure InitializedArchive (m : Mem) (view : ImageView) (archive : PhMappedArchive) : Prop where
  view_eq : archive.view = view
  first : MemberParsed m view (some zeroMember) archive.firstLinkerMember.header
    archive.firstLinkerMember
  second : MemberParsed m view (some zeroMember) (nextHeader archive.firstLinkerMember)
    archive.secondLinkerMember
  longnames : archive.hasLongnamesMember = true →
    MemberParsed m view none (nextHeader archive.secondLinkerMember) archive.longnamesMember

theorem initialized_of_ok
    (h : (phInitializeMappedArchive view).val m = .ok archive) :
    InitializedArchive m view archive := by
  rw [phInitializeMappedArchive] at h
  obtain ⟨-, h⟩ := Checked.val_require_bind_ok_iff.mp h
  rw [val_bytesAt_bind] at h
  obtain ⟨-, h⟩ := Checked.val_require_bind_ok_iff.mp h
  obtain ⟨⟨status, first⟩, hfirst, h⟩ := Checked.val_bind_ok_iff.mp h
  obtain ⟨hstatus, h⟩ := Checked.val_require_bind_ok_iff.mp h
  obtain ⟨-, h⟩ := Checked.val_require_bind_ok_iff.mp h
  obtain ⟨⟨status', second⟩, hsecond, h⟩ := Checked.val_bind_ok_iff.mp h
  obtain ⟨hstatus', h⟩ := Checked.val_require_bind_ok_iff.mp h
  obtain ⟨-, h⟩ := Checked.val_require_bind_ok_iff.mp h
  obtain ⟨⟨status'', third⟩, hthird, h⟩ := Checked.val_bind_ok_iff.mp h
  obtain rfl := Except.ok.inj h
  have hparsed := memberParsed_of_ok hfirst hstatus
  refine ⟨rfl, ?_, memberParsed_of_ok hsecond hstatus', fun hlongnames => ?_⟩
  · dsimp only
    rwa [hparsed.header_eq]
  · exact memberParsed_of_ok hthird (Bool.and_eq_true_iff.mp hlongnames).1

theorem safe_phInitializeMappedArchive : (phInitializeMappedArchive view).Safe view.Allows m := by
  have hmember : ∀ {β : Type} {longnamesMember : Option PhMappedArchiveMember} {header : Nat}
      {member : PhMappedArchiveMember} {f : NtStatus × PhMappedArchiveMember → ImageReader β},
      (∀ r, (f r).Safe view.Allows m) →
        (phpGetMappedArchiveMemberFromHeader view longnamesMember header member >>= f).Safe
          view.Allows m :=
    fun hf => Checked.Safe.bind (safe_memberFromHeader _ _ _) fun r _ => hf r
  rw [phInitializeMappedArchive, Checked.safe_require_bind_iff]
  intro hprobe
  have hheld : view.Holds view.base imageArchiveStartSize :=
    (ImageView.probes_iff (by decide) (by decide)).mp hprobe
  rw [safe_bytesAt_bind_iff, Checked.safe_require_bind_iff]
  refine ⟨fun _ => hheld, fun _ => ?_⟩
  refine hmember fun first => Checked.safe_require_bind_iff.mpr fun _ =>
    Checked.safe_require_bind_iff.mpr fun _ => hmember fun second =>
      Checked.safe_require_bind_iff.mpr fun _ => Checked.safe_require_bind_iff.mpr fun _ =>
        hmember fun third => Checked.safe_pure _

/-- Every member that is returned has been parsed, with the long names of the archive or with
none. -/
theorem InitializedArchive.parsed (h : InitializedArchive m view archive)
    {member : PhMappedArchiveMember} (hmember : Returned m archive member) :
    ∃ longnamesMember, MemberParsed m view longnamesMember member.header member ∧
      (longnamesMember.getD member = zeroMember ∨
        longnamesMember.getD member = archive.longnamesMember) := by
  cases hmember with
  | first => exact ⟨some zeroMember, h.first, Or.inl rfl⟩
  | second =>
      refine ⟨some zeroMember, ?_, Or.inl rfl⟩
      have hparsed := h.second
      rwa [← hparsed.header_eq] at hparsed
  | longnames hlongnames =>
      refine ⟨none, ?_, Or.inr rfl⟩
      have hparsed := h.longnames hlongnames
      rwa [← hparsed.header_eq] at hparsed
  | next _ hnext =>
      refine ⟨some archive.longnamesMember, ?_, Or.inr rfl⟩
      have hparsed := memberParsed_of_next hnext
      rwa [← hparsed.header_eq, h.view_eq] at hparsed

theorem InitializedArchive.pointer_eq
    (h : InitializedArchive m view archive)
    (hlongnames : archive.hasLongnamesMember = true) {offset : Nat}
    (hlt : offset < archive.longnamesMember.size) :
    ptrAddOffset archive.longnamesMember.data offset = archive.longnamesMember.data + offset := by
  have hfits := view.fits
  have hend := (h.longnames hlongnames).data_held.2
  exact Nat.mod_eq_of_lt (by omega)

theorem InitializedArchive.memberMeets_iff
    (h : InitializedArchive m view archive)
    {member : PhMappedArchiveMember} (hmember : Returned m archive member) :
    MemberMeets m archive member ↔ HeaderSound m archive member.header := by
  obtain ⟨longnamesMember, hparsed, hnames⟩ := h.parsed hmember
  have hname := hparsed.name
  constructor
  · intro hmeets
    refine ⟨hmeets.size.1, ?_, fun offset hoffset => ?_⟩
    · rw [← hmeets.size.2, hparsed.size_eq]
      exact Nat.mod_lt _ (by decide)
    · rcases hname with ⟨hnone, -⟩ | ⟨offset', hoffset', hheader, hlt, hpointer⟩
      · rw [hnone] at hoffset
        cases hoffset
      · obtain rfl := Option.some.inj (hoffset'.symm.trans hoffset)
        rcases hnames with hzero | harchive
        · rw [hzero] at hheader
          exact absurd rfl hheader
        · rw [harchive] at hlt hpointer
          obtain ⟨k, hk, hhold⟩ := hmeets.name_pointer _ hpointer
          rw [h.pointer_eq hhold.1 hlt] at hk
          rwa [Nat.add_left_cancel hk]
  · intro hsound
    refine ⟨h.view_eq ▸ hparsed.header_held, hparsed.data_eq, h.view_eq ▸ hparsed.data_held,
      ⟨hsound.digits, hparsed.size_eq.trans (Nat.mod_eq_of_lt hsound.size_lt)⟩, ?_, ?_⟩
    · intro hbuffer
      rcases hname with ⟨-, -, hmem⟩ | ⟨offset, -, -, -, hpointer⟩
      · exact hmem
      · rw [hpointer] at hbuffer
        cases hbuffer
    · intro pointer hpointer
      rcases hname with ⟨-, hbuffer, -⟩ | ⟨offset, hoffset, hheader, hlt, hpointer'⟩
      · rw [hbuffer] at hpointer
        cases hpointer
      · rcases hnames with hzero | harchive
        · rw [hzero] at hheader
          exact absurd rfl hheader
        · have hhold := hsound.name offset hoffset
          rw [harchive] at hlt hpointer'
          rw [hpointer'] at hpointer
          rw [← MemberName.pointer.inj hpointer, h.pointer_eq hhold.1 hlt]
          exact ⟨_, rfl, hhold⟩

theorem InitializedArchive.next_ge
    (h : InitializedArchive m view archive) (hmember : Returned m archive member)
    (hnext : NextMember m archive member member') :
    member.data + member.size ≤ member'.header := by
  obtain ⟨_, hparsed, -⟩ := h.parsed hmember
  rw [(memberParsed_of_next hnext).header_eq]
  exact nextHeader_ge hparsed.data_held

theorem InitializedArchive.calls_ge
    (h : InitializedArchive m view archive) {n : Nat} (hmember : Returned m archive member)
    (hcalls : Calls m archive n member member') :
    Returned m archive member' ∧ member.header + 60 * n ≤ member'.header := by
  induction hcalls with
  | none member => exact ⟨hmember, le_refl _⟩
  | more _ hnext ih =>
      obtain ⟨hreturned, hle⟩ := ih hmember
      have hge := h.next_ge hreturned hnext
      obtain ⟨_, hparsed, -⟩ := h.parsed hreturned
      have hdata := hparsed.data_eq
      rw [sizeofImageArchiveMemberHeader] at hdata
      exact ⟨.next hreturned hnext, by omega⟩

theorem InitializedArchive.calls_bound
    (h : InitializedArchive m view archive) {n : Nat} (hmember : Returned m archive member)
    (hcalls : Calls m archive n member member') : 60 * n ≤ view.size := by
  obtain ⟨hreturned, hle⟩ := h.calls_ge hmember hcalls
  obtain ⟨_, hparsed, -⟩ := h.parsed hmember
  obtain ⟨_, hparsed', -⟩ := h.parsed hreturned
  have hlo := hparsed.header_held.1
  have hhi := hparsed'.header_held.2
  omega

/-- Walking an archive is what is said of it exactly when the headers that are come to are sound. -/
theorem mappedArchive_meets_iff (m : Mem) (view : ImageView) :
    ArchiveMeets m view ↔
      ∀ archive, (phInitializeMappedArchive view).val m = .ok archive →
        ∀ member, Returned m archive member → HeaderSound m archive member.header := by
  constructor
  · intro hmeets archive hok member hmember
    exact ((initialized_of_ok hok).memberMeets_iff hmember).mp
      (hmeets.members archive hok member hmember)
  · intro hsound
    refine ⟨safe_phInitializeMappedArchive, ?_, ?_, ?_, ?_, ?_⟩
    · intro archive hok member nextMember _
      rw [phGetNextMappedArchiveMember, (initialized_of_ok hok).view_eq]
      exact safe_memberFromHeader _ _ _
    · intro archive hok n member member' hmember hcalls
      exact (initialized_of_ok hok).calls_bound hmember hcalls
    · intro archive hok
      have h := initialized_of_ok hok
      refine ⟨?_, fun hlongnames => ?_⟩
      · rw [h.second.header_eq]
        exact nextHeader_ge h.first.data_held
      · rw [(h.longnames hlongnames).header_eq]
        exact nextHeader_ge h.second.data_held
    · intro archive hok member member' hmember hnext
      exact (initialized_of_ok hok).next_ge hmember hnext
    · intro archive hok member hmember
      exact ((initialized_of_ok hok).memberMeets_iff hmember).mpr
        (hsound archive hok member hmember)

def archiveHeader (name size : List UInt8) : List UInt8 :=
  name ++ List.replicate (48 - name.length) 0x20 ++ size ++
    List.replicate (10 - size.length) 0x20 ++ [0x60, 0x0a]

/-- An archive of two linker members and a member whose size is given as `4294967296`. -/
def hugeArchive : Mem := fun a =>
  (imageArchiveStart ++ archiveHeader [0x2f] [0x30] ++ archiveHeader [0x2f] [0x30] ++
    archiveHeader [0x61, 0x2f]
      [0x34, 0x32, 0x39, 0x34, 0x39, 0x36, 0x37, 0x32, 0x39, 0x36]).getD (a - 0x10000) 0

def emptyMember (type : PhMappedArchiveMemberType) (header : Nat) (name : List UInt8) :
    PhMappedArchiveMember :=
  ⟨type, .nameBuffer, 0, header + 60, header, Vector.ofFn fun i => name.getD i 0⟩

def hugeArchiveRead : PhMappedArchive where
  view := smallView 188 (by omega)
  firstLinkerMember := emptyMember .linker 0x10008 (0 :: List.replicate 15 0x20)
  secondLinkerMember := emptyMember .linker 0x10044 (0 :: List.replicate 15 0x20)
  longnamesMember := emptyMember .normal 0x10080 (0x61 :: 0 :: List.replicate 14 0x20)
  hasLongnamesMember := false
  lastStandardMember := emptyMember .linker 0x10044 (0 :: List.replicate 15 0x20)

theorem mappedArchive_loses_size :
    NextMember hugeArchive hugeArchiveRead hugeArchiveRead.lastStandardMember
        hugeArchiveRead.longnamesMember ∧
      hugeArchiveRead.longnamesMember.size = 0 ∧
      decimalOf (sizeDigits hugeArchive hugeArchiveRead.longnamesMember.header) = 4294967296 ∧
      ¬ ArchiveMeets hugeArchive (smallView 188 (by omega)) := by
  have hread : (phInitializeMappedArchive (smallView 188 (by omega))).val hugeArchive =
      .ok hugeArchiveRead := by decide +kernel
  have hnext : NextMember hugeArchive hugeArchiveRead hugeArchiveRead.lastStandardMember
      hugeArchiveRead.longnamesMember := ⟨zeroMember, statusSuccess, by decide +kernel, rfl⟩
  have hsize : decimalOf (sizeDigits hugeArchive hugeArchiveRead.longnamesMember.header) =
      4294967296 := by decide +kernel
  refine ⟨hnext, rfl, hsize, fun hmeets => ?_⟩
  have hmember := (hmeets.members _ hread _ (.next .second hnext)).size.2
  rw [hsize] at hmember
  exact absurd hmember (by decide)

end SystemInformer.PhLib
