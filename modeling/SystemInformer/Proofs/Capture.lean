import SystemInformer.PhSvc.Capture

/-!
# Service call arguments arrive unchanged and confined

`PhSvcValidateString` answers an address only if the whole range lies in the client's
view: neither sum wraps, because an offset and a length have 32 bits and a sum that
wrapped would be below the base of the view. So whatever a capture reads of the view lies
in it, and what it reads of the copy is behind a comparison with the length.

The client and the service have different addresses for the section, but the same offsets.
A string is written to its block, blocks are apart, and the service reads what the client
wrote. On the service each captured object is in the ledger once, and the structure that
holds the captured strings is null where nothing was captured, so releasing what is not
null gives back exactly what was taken.
-/

namespace SystemInformer.PhSvc

open Bytes PhLib

/-! ## The view -/

def InView (view : ClientView) (string : RelativeStringRef) : Prop :=
  view.base + string.offset.toNat + string.length.toNat ≤ view.limit

theorem phSvcValidateString_inView {view : ClientView} {string : RelativeStringRef} {alignment : Nat}
    (h : phSvcValidateString view string alignment ≠ 0) :
    phSvcValidateString view string alignment = view.base + string.offset.toNat ∧
      InView view string := by
  have hbase := view.base_lt
  have hlimit := view.limit_lt
  have hoffset := string.offset.toNat_lt
  have hlength := string.length.toNat_lt
  rw [phSvcValidateString, InView] at *
  split at h
  · simp at h
  · next hrange =>
      split at h
      · simp at h
      · next halign =>
          rw [if_neg hrange, if_neg halign]
          omega

theorem phSvcValidateString_eq {view : ClientView} {string : RelativeStringRef} {alignment : Nat}
    (h : InView view string)
    (halign : (view.base + string.offset.toNat) &&& (alignment - 1) = 0) :
    phSvcValidateString view string alignment = view.base + string.offset.toNat := by
  have hlimit := view.limit_lt
  rw [InView] at h
  have haddress : (view.base + string.offset.toNat) % 2 ^ 64 = view.base + string.offset.toNat :=
    Nat.mod_eq_of_lt (by omega)
  rw [phSvcValidateString, haddress, if_neg (by omega), if_neg (by simp [halign])]

/-! ## The ledger -/

/-- What was taken since then was given back. -/
def SvcHeap.Balanced (heap heap' : SvcHeap) : Prop :=
  ∃ objects, heap'.acquired = heap.acquired ++ objects ∧ heap'.released = heap.released ++ objects

theorem SvcHeap.balanced_refl (heap : SvcHeap) : heap.Balanced heap := ⟨[], by simp, by simp⟩

/-- What a capture may read and take: `allowNull` is the caller's. -/
structure Confined {α : Type} (view : ClientView) (string : RelativeStringRef) (allowNull : Bool)
    (heap : SvcHeap) (run : CaptureRun α) : Prop where
  viewLog : run.viewLog.Within view.base view.limit
  copyLog : run.copyLog.Within 0 string.length.toNat
  failed : ntSuccess run.status = false → run.captured = none ∧ heap.Balanced run.heap
  succeeded : ntSuccess run.status = true →
    InView view string ∨
      (string.offset = 0 ∧ allowNull = true ∧ run.captured = none ∧ run.heap = heap)

section

variable {α : Type} {view : ClientView} {string : RelativeStringRef} {heap : SvcHeap}

theorem Confined.fail {status : NtStatus} {allowNull : Bool} (h : ntSuccess status = false) :
    Confined view string allowNull heap (.fail status heap : CaptureRun α) where
  viewLog := ReadLog.within_nil
  copyLog := ReadLog.within_nil
  failed := fun _ => ⟨rfl, heap.balanced_refl⟩
  succeeded := fun hsuccess => absurd (h.symm.trans hsuccess) Bool.false_ne_true

theorem Confined.absent {allowNull : Bool} (h : string.offset = 0) :
    Confined view string allowNull heap (.absent allowNull heap : CaptureRun α) := by
  cases allowNull with
  | false => exact Confined.fail rfl
  | true =>
      exact ⟨ReadLog.within_nil, ReadLog.within_nil, fun _ => ⟨rfl, heap.balanced_refl⟩,
        fun _ => Or.inr ⟨h, rfl, rfl, rfl⟩⟩

theorem Confined.captured {allowNull : Bool} {captured : Option α} {heap' : SvcHeap}
    {address : Nat} (haddress : address = view.base + string.offset.toNat)
    (hin : InView view string) {log : ReadLog}
    (hlog : log = [] ∨ log = [(address, string.length.toNat)]) :
    Confined view string allowNull heap ⟨statusSuccess, captured, heap', log, []⟩ where
  viewLog := by
    rw [InView] at hin
    rcases hlog with rfl | rfl
    · exact ReadLog.within_nil
    · exact ReadLog.within_single (by omega) (by omega)
  copyLog := ReadLog.within_nil
  failed := fun (h : ntSuccess statusSuccess = false) => absurd h (by decide)
  succeeded := fun _ => Or.inl hin

theorem phSvcProbeBuffer_confined (alignment : Nat) (allowNull : Bool) :
    Confined view string allowNull heap
      (phSvcProbeBuffer view string alignment allowNull heap) := by
  rw [phSvcProbeBuffer]
  split
  · dsimp only
    split
    · exact Confined.fail rfl
    · next haddress =>
        obtain ⟨heq, hin⟩ := phSvcValidateString_inView haddress
        exact Confined.captured heq hin (Or.inl rfl)
  · next hoffset => exact Confined.absent (not_not.mp hoffset)

theorem phSvcCaptureBuffer_confined (allowNull allocates : Bool) :
    Confined view string allowNull heap
      (phSvcCaptureBuffer view string allowNull allocates heap) := by
  rw [phSvcCaptureBuffer]
  split
  · dsimp only
    split
    · exact Confined.fail rfl
    · next haddress =>
        obtain ⟨heq, hin⟩ := phSvcValidateString_inView haddress
        split
        · exact Confined.fail rfl
        · exact Confined.captured heq hin (Or.inr rfl)
  · next hoffset => exact Confined.absent (not_not.mp hoffset)

theorem phSvcCaptureString_confined (allowNull : Bool) :
    Confined view string allowNull heap (phSvcCaptureString view string allowNull heap) := by
  rw [phSvcCaptureString]
  split
  · exact Confined.fail rfl
  · split
    · exact Confined.fail rfl
    · split
      · dsimp only
        split
        · exact Confined.fail rfl
        · next haddress =>
            obtain ⟨heq, hin⟩ := phSvcValidateString_inView haddress
            split
            · exact Confined.captured heq hin (Or.inr rfl)
            · exact Confined.captured heq hin (Or.inl rfl)
      · next hoffset => exact Confined.absent (not_not.mp hoffset)

theorem checkSid_within (length : Nat) (bytes : List UInt8) :
    (checkSid length bytes).2.Within 0 length := by
  rw [checkSid]
  split
  · exact ReadLog.within_nil
  · next htwo =>
      have hbyte : ∀ a, a ≤ 1 → ReadLog.Within 0 length [(a, 1)] := by
        intro a ha
        exact ReadLog.within_single (Nat.zero_le _) (by omega)
      split
      · exact hbyte 1 (Nat.le_refl _)
      · split
        · exact (hbyte 1 (Nat.le_refl _)).append (hbyte 0 (Nat.zero_le _))
        · exact (hbyte 1 (Nat.le_refl _)).append
            ((hbyte 0 (Nat.zero_le _)).append (hbyte 1 (Nat.le_refl _)))

theorem phSvcCaptureBuffer_acquired {allowNull allocates : Bool} {buffer : CapturedBuffer}
    (h : (phSvcCaptureBuffer view string allowNull allocates heap).captured = some buffer) :
    (phSvcCaptureBuffer view string allowNull allocates heap).heap.acquired =
        heap.acquired ++ [buffer.object] ∧
      (phSvcCaptureBuffer view string allowNull allocates heap).heap.released = heap.released := by
  rw [phSvcCaptureBuffer] at h ⊢
  split at h
  · next hoffset =>
      rw [if_pos hoffset]
      dsimp only at h ⊢
      split at h
      · cases h
      · next haddress =>
          split at h
          · cases h
          · next hallocates =>
              obtain rfl := Option.some.inj h
              rw [if_neg haddress, if_neg hallocates]
              exact ⟨rfl, rfl⟩
  · cases h

theorem phSvcCaptureSid_confined (allowNull allocates : Bool) :
    Confined view string allowNull heap
      (phSvcCaptureSid view string allowNull allocates heap) := by
  have hbuffer : Confined view string allowNull heap
      (phSvcCaptureBuffer view string allowNull allocates heap) :=
    phSvcCaptureBuffer_confined allowNull allocates
  rw [phSvcCaptureSid]
  dsimp only
  split
  · exact hbuffer
  · next hsuccess =>
      rw [Bool.not_eq_false] at hsuccess
      cases hcaptured : (phSvcCaptureBuffer view string allowNull allocates heap).captured with
      | none => exact hbuffer
      | some buffer =>
          have hlog := checkSid_within string.length.toNat buffer.bytes
          dsimp only
          split
          · refine ⟨hbuffer.viewLog, hlog, ?_, ?_⟩
            · intro hfailed
              exact absurd (hfailed.symm.trans hsuccess) Bool.false_ne_true
            intro _
            refine (hbuffer.succeeded hsuccess).imp_right ?_
            rintro ⟨-, -, hnone, -⟩
            simp [hcaptured] at hnone
          · obtain ⟨hacquired, hreleased⟩ := phSvcCaptureBuffer_acquired hcaptured
            refine ⟨hbuffer.viewLog, hlog, ?_, ?_⟩
            · intro _
              refine ⟨rfl, [buffer.object], hacquired, ?_⟩
              rw [SvcHeap.release, hreleased]
            · intro (h : ntSuccess statusInvalidSid = true)
              exact absurd h (by decide)

end

/-! ## Strings and their bytes -/

theorem length_encodeChars (string : List WChar) :
    (encodeChars string).length = 2 * string.length := by
  induction string with
  | nil => rfl
  | cons c rest ih =>
      rw [encodeChars, List.flatMap_cons, List.length_append, length_leEncode, ← encodeChars, ih,
        List.length_cons]
      omega

theorem decodeChars_encodeChars (string : List WChar) : decodeChars (encodeChars string) = string := by
  induction string with
  | nil => rfl
  | cons c rest ih =>
      have hchar : UInt16.ofNat ((UInt8.ofNat c.toNat).toNat +
          256 * (UInt8.ofNat (c.toNat / 256)).toNat) = c := by
        have hlt := c.toNat_lt
        refine UInt16.toNat_inj.mp ?_
        simp only [UInt16.toNat_ofNat', UInt8.toNat_ofNat']
        omega
      rw [encodeChars, List.flatMap_cons, ← encodeChars, leEncode, leEncode, leEncode,
        List.cons_append, List.cons_append, List.nil_append, decodeChars, ih, hchar]

theorem phCountStringZ_append {string : List WChar} (h : 0 ∉ string) (rest : List WChar) :
    phCountStringZ (string ++ 0 :: rest) = string.length := by
  rw [phCountStringZ, List.takeWhile_append_of_pos, List.takeWhile_cons_of_neg (by simp),
    List.append_nil]
  intro c hc
  simp only [ne_eq, decide_not, Bool.not_eq_eq_eq_not, Bool.not_true, decide_eq_false_iff_not]
  rintro rfl
  exact h hc

/-- What a string argument means: a counted string with anything behind it, or a terminated
one. -/
inductive Denotes : StringArgument → Option (List WChar) → Prop where
  | absent (length : Nat) (memory : Option Nat) : Denotes ⟨none, length, memory⟩ none
  | counted {string : List WChar} (rest : List WChar) (memory : Option Nat)
      (h : string.length ≤ 32767) :
      Denotes ⟨some (string ++ rest), 2 * string.length, memory⟩ (some string)
  | terminated {string : List WChar} (rest : List WChar) (memory : Option Nat)
      (h : string.length ≤ 32767) (hzero : 0 ∉ string) :
      Denotes ⟨some (string ++ 0 :: rest), sizeMax, memory⟩ (some string)

theorem Denotes.length_le {argument : StringArgument} {string : List WChar}
    (h : Denotes argument (some string)) : string.length ≤ 32767 := by
  cases h with
  | counted _ _ h => exact h
  | terminated _ _ h _ => exact h

/-- The first bytes of what is passed are the string, and the length that is used is its
own. -/
theorem Denotes.passed {argument : StringArgument} {string : List WChar}
    (h : Denotes argument (some string)) :
    ∃ passed, argument.string = some passed ∧
      (if argument.length ≠ sizeMax then argument.length
        else phCountStringZ ((some passed).getD []) * 2) = 2 * string.length ∧
      (encodeChars passed).take (2 * string.length) = encodeChars string := by
  have htake : ∀ rest, (encodeChars (string ++ rest)).take (2 * string.length) =
      encodeChars string := by
    intro rest
    rw [encodeChars, List.flatMap_append, ← length_encodeChars, ← encodeChars, ← encodeChars,
      List.take_left]
  have hle := h.length_le
  cases h with
  | counted rest memory =>
      refine ⟨_, rfl, ?_, htake rest⟩
      rw [if_pos]
      rw [sizeMax]
      dsimp only
      omega
  | terminated rest memory _ hzero =>
      refine ⟨_, rfl, ?_, htake (0 :: rest)⟩
      rw [if_neg (by simp), Option.getD_some, phCountStringZ_append hzero]
      omega

/-! ## Blocks -/

/-- A block of the port heap, by its offset: not at the start of the section, at an even
offset, and inside. -/
structure IsBlock (heap : PortHeap) (offset length : Nat) : Prop where
  pos : 0 < offset
  even : offset % 2 = 0
  lt : offset < heap.size
  le : offset + length ≤ heap.size

/-- The block that a string gets, as its offset and length. -/
def stringBlock (heap : PortHeap) (argument : StringArgument) (string : Option (List WChar)) :
    Option (Nat × Nat) :=
  match string, argument.memory with
  | some string, some memory => some (memory - heap.base, 2 * string.length)
  | _, _ => none

/-- `RtlAllocateHeap` answers blocks of the heap, and the blocks of one call are apart. -/
structure Allocated (heap : PortHeap) (blocks : List (Option (Nat × Nat))) : Prop where
  isBlock : ∀ b, some b ∈ blocks → IsBlock heap b.1 b.2
  apart : blocks.Pairwise fun b c => ∀ p ∈ b, ∀ q ∈ c, p.1 + p.2 ≤ q.1 ∨ q.1 + q.2 ≤ p.1

theorem phSvcpCreateString_spec {heap : PortHeap} (section_ : Mem) {argument : StringArgument}
    {string passed : List WChar} {offset : Nat}
    (hlength : (if argument.length ≠ sizeMax then argument.length
      else phCountStringZ ((some passed).getD []) * 2) = 2 * string.length)
    (htake : (encodeChars passed).take (2 * string.length) = encodeChars string)
    (hle : string.length ≤ 32767)
    {memory : Nat} (hmemory : argument.memory = some memory) (hoffset : memory - heap.base = offset) :
    ∃ section', phSvcpCreateString heap section_ (some passed) argument.length argument.memory =
        some (⟨UInt32.ofNat (2 * string.length), UInt32.ofNat offset⟩, section') ∧
      load section' offset (2 * string.length) = encodeChars string ∧
      ∀ a n, a + n ≤ offset ∨ offset + 2 * string.length ≤ a →
        load section' a n = load section_ a n := by
  have hbytes := length_encodeChars string
  rw [phSvcpCreateString, hlength]
  dsimp only
  rw [if_neg (by omega), hmemory, phSvcpAllocateHeap, Option.map_some]
  dsimp only
  rw [hoffset, htake]
  refine ⟨_, rfl, ?_, ?_⟩
  · rw [← hbytes]
    exact Store.load_apply_same ⟨offset, encodeChars string⟩ _
  · intro a n hapart
    rw [Store.load_apply_disjoint (by dsimp only; omega),
      Store.load_apply_disjoint (by dsimp only; rw [List.length_replicate]; omega)]

def serverView (heap : PortHeap) (section_ : Mem) (base : Nat) (h : base + heap.size < 2 ^ 64) :
    ClientView where
  base := base
  limit := base + heap.size
  mem := fun a => section_ (a - base)
  base_lt := by omega
  limit_lt := h

/-- What the service captures of a reference, wherever it has the section. -/
def Arrives (heap : PortHeap) (section_ : Mem) (string : RelativeStringRef) :
    Option (List WChar) → Prop
  | none => ∀ base h svcHeap,
      (phSvcCaptureString (serverView heap section_ base h) string true svcHeap).status =
          statusSuccess ∧
        (phSvcCaptureString (serverView heap section_ base h) string true svcHeap).captured = none
  | some chars => ∀ base h svcHeap allowNull, base % 2 = 0 →
      (phSvcCaptureString (serverView heap section_ base h) string allowNull svcHeap).status =
          statusSuccess ∧
        ∃ captured, (phSvcCaptureString (serverView heap section_ base h) string allowNull
          svcHeap).captured = some captured ∧ captured.chars = chars

theorem arrives_absent (heap : PortHeap) (section_ : Mem) : Arrives heap section_ ⟨0, 0⟩ none :=
  fun _ _ _ => ⟨rfl, rfl⟩

theorem arrives_present {heap : PortHeap} {section_ : Mem} {offset : Nat} {string : List WChar}
    (hblock : IsBlock heap offset (2 * string.length)) (hle : string.length ≤ 32767)
    (hload : load section_ offset (2 * string.length) = encodeChars string) :
    Arrives heap section_ ⟨UInt32.ofNat (2 * string.length), UInt32.ofNat offset⟩ (some string) := by
  intro base h svcHeap allowNull hbase
  obtain ⟨hpos, heven, hlt, hfits⟩ := hblock
  have hsize := heap.size_le
  rw [ulongRange] at hsize
  have hoffset : (UInt32.ofNat offset).toNat = offset :=
    UInt32.toNat_ofNat_of_lt' (show offset < 2 ^ 32 by omega)
  have hlength : (UInt32.ofNat (2 * string.length)).toNat = 2 * string.length :=
    UInt32.toNat_ofNat_of_lt' (show 2 * string.length < 2 ^ 32 by omega)
  have hodd : ¬ (UInt32.ofNat (2 * string.length) &&& 1 ≠ 0) := by
    rw [not_not, ← UInt32.toNat_inj, UInt32.toNat_and, hlength]
    simp
  have hshort : ¬ (UInt32.ofNat (2 * string.length) > 0xfffe) := by
    rw [gt_iff_lt, UInt32.lt_iff_toNat_lt, hlength]
    simp only [UInt32.reduceToNat]
    omega
  have hpresent : UInt32.ofNat offset ≠ 0 := by
    rw [ne_eq, ← UInt32.toNat_inj, hoffset]
    simp only [UInt32.toNat_zero]
    omega
  have haddress : phSvcValidateString (serverView heap section_ base h)
      ⟨UInt32.ofNat (2 * string.length), UInt32.ofNat offset⟩ 2 = base + offset := by
    rw [phSvcValidateString_eq]
    · simp only [serverView, hoffset]
    · simp only [InView, serverView, hoffset, hlength]
      omega
    · simp only [serverView, hoffset, Nat.add_one_sub_one, Nat.and_one_is_mod]
      omega
  rw [phSvcCaptureString, if_neg hodd, if_neg hshort, if_pos hpresent, haddress]
  dsimp only
  rw [if_neg (by omega)]
  split
  · refine ⟨rfl, _, rfl, ?_⟩
    dsimp only
    rw [hlength]
    have hmem : load (serverView heap section_ base h).mem (base + offset) (2 * string.length) =
        load section_ offset (2 * string.length) := by
      refine List.map_congr_left ?_
      intro i _
      simp only [serverView]
      rw [show base + offset + i - base = offset + i by omega]
    rw [hmem, hload, decodeChars_encodeChars]
  · next hempty =>
      refine ⟨rfl, _, rfl, ?_⟩
      rw [not_not, ← UInt32.toNat_inj, hlength, UInt32.toNat_zero] at hempty
      exact (List.length_eq_zero_iff.mp (by omega)).symm

/-! ## The strings of a call -/

theorem createStrings_frame {heap : PortHeap} {section_ section' : Mem}
    {arguments : List StringArgument} {strings : List (Option (List WChar))}
    {refs : List RelativeStringRef} (hdenotes : List.Forall₂ Denotes arguments strings)
    (h : createStrings heap section_ arguments = some (refs, section')) {a n : Nat}
    (hapart : ∀ b, some b ∈ List.zipWith (stringBlock heap) arguments strings →
      a + n ≤ b.1 ∨ b.1 + b.2 ≤ a) :
    load section' a n = load section_ a n := by
  induction hdenotes generalizing section_ refs with
  | nil =>
      obtain ⟨-, rfl⟩ := Prod.mk.inj (Option.some.inj h)
      rfl
  | @cons argument string arguments strings hargument hrest ih =>
      have hlater : ∀ b, some b ∈ List.zipWith (stringBlock heap) arguments strings →
          a + n ≤ b.1 ∨ b.1 + b.2 ≤ a := fun b hb => hapart b (List.mem_cons_of_mem _ hb)
      cases string with
      | none =>
          cases hargument
          obtain ⟨r, hr, heq⟩ := Option.map_eq_some_iff.mp h
          obtain ⟨-, rfl⟩ := Prod.mk.inj heq
          exact ih hr hlater
      | some string =>
          obtain ⟨passed, hpassed, hlength, htake⟩ := hargument.passed
          rw [createStrings.eq_def] at h
          dsimp only at h
          rw [hpassed] at h
          dsimp only at h
          cases hmemory : argument.memory with
          | none =>
              rw [phSvcpCreateString, hlength, hmemory] at h
              simp [phSvcpAllocateHeap] at h
          | some memory =>
              obtain ⟨middle, hcreate, -, hframe⟩ := phSvcpCreateString_spec section_ hlength
                htake hargument.length_le hmemory rfl
              rw [hcreate] at h
              obtain ⟨r, hr, heq⟩ := Option.map_eq_some_iff.mp h
              obtain ⟨-, rfl⟩ := Prod.mk.inj heq
              rw [ih hr hlater, hframe]
              refine hapart (memory - heap.base, 2 * string.length) ?_
              simp [stringBlock, hmemory]

theorem createStrings_arrive {heap : PortHeap} {section_ section' : Mem}
    {arguments : List StringArgument} {strings : List (Option (List WChar))}
    {refs : List RelativeStringRef} (hdenotes : List.Forall₂ Denotes arguments strings)
    (hblocks : Allocated heap (List.zipWith (stringBlock heap) arguments strings))
    (h : createStrings heap section_ arguments = some (refs, section')) :
    List.Forall₂ (Arrives heap section') refs strings := by
  induction hdenotes generalizing section_ refs with
  | nil =>
      obtain ⟨rfl, -⟩ := Prod.mk.inj (Option.some.inj h)
      exact .nil
  | @cons argument string arguments strings hargument hrest ih =>
      obtain ⟨hisBlock, hapart⟩ := hblocks
      rw [List.zipWith_cons_cons, List.pairwise_cons] at hapart
      obtain ⟨hfirst, hothers⟩ := hapart
      have hlater : Allocated heap (List.zipWith (stringBlock heap) arguments strings) :=
        ⟨fun b hb => hisBlock b (List.mem_cons_of_mem _ hb), hothers⟩
      cases string with
      | none =>
          cases hargument
          obtain ⟨r, hr, heq⟩ := Option.map_eq_some_iff.mp h
          obtain ⟨rfl, rfl⟩ := Prod.mk.inj heq
          exact .cons (arrives_absent heap _) (ih hlater hr)
      | some string =>
          obtain ⟨passed, hpassed, hlength, htake⟩ := hargument.passed
          rw [createStrings.eq_def] at h
          dsimp only at h
          rw [hpassed] at h
          dsimp only at h
          cases hmemory : argument.memory with
          | none =>
              rw [phSvcpCreateString, hlength, hmemory] at h
              simp [phSvcpAllocateHeap] at h
          | some memory =>
              obtain ⟨middle, hcreate, hload, -⟩ := phSvcpCreateString_spec section_ hlength
                htake hargument.length_le hmemory rfl
              rw [hcreate] at h
              obtain ⟨r, hr, heq⟩ := Option.map_eq_some_iff.mp h
              obtain ⟨rfl, rfl⟩ := Prod.mk.inj heq
              have hown : stringBlock heap argument (some string) =
                  some (memory - heap.base, 2 * string.length) := by
                simp [stringBlock, hmemory]
              have hkept : load r.2 (memory - heap.base) (2 * string.length) =
                  load middle (memory - heap.base) (2 * string.length) := by
                refine createStrings_frame hrest hr ?_
                intro b hb
                rw [hown] at hfirst
                exact hfirst _ hb _ rfl b rfl
              refine .cons ?_ (ih hlater hr)
              refine arrives_present (hisBlock (memory - heap.base, 2 * string.length) ?_)
                hargument.length_le (hkept.trans hload)
              rw [List.zipWith_cons_cons, hown]
              exact List.mem_cons_self

/-! ## The strings of a run-as call are released -/

def objects (captured : List (Option CapturedString)) : List SvcObject :=
  captured.filterMap fun string => string.map CapturedString.object

theorem phSvcCaptureString_ledger (view : ClientView) (string : RelativeStringRef)
    (allowNull : Bool) (heap : SvcHeap) :
    (phSvcCaptureString view string allowNull heap).heap.acquired =
        heap.acquired ++ objects [(phSvcCaptureString view string allowNull heap).captured] ∧
      (phSvcCaptureString view string allowNull heap).heap.released = heap.released := by
  have hfail : ∀ status, (CaptureRun.fail status heap : CaptureRun CapturedString).heap.acquired =
      heap.acquired ++ objects [(CaptureRun.fail status heap : CaptureRun CapturedString).captured] ∧
      (CaptureRun.fail status heap : CaptureRun CapturedString).heap.released = heap.released := by
    intro status
    simp [CaptureRun.fail, objects]
  rw [phSvcCaptureString]
  split
  · exact hfail _
  · split
    · exact hfail _
    · split
      · dsimp only
        split
        · exact hfail _
        · split
          · exact ⟨rfl, rfl⟩
          · exact ⟨rfl, rfl⟩
      · exact hfail _

theorem captureStrings_ledger (view : ClientView) (heap : SvcHeap)
    (strings : List RelativeStringRef) :
    (captureStrings view heap strings).2.2.acquired =
        heap.acquired ++ objects (captureStrings view heap strings).2.1 ∧
      (captureStrings view heap strings).2.2.released = heap.released := by
  induction strings generalizing heap with
  | nil => simp [captureStrings, objects]
  | cons string rest ih =>
      obtain ⟨hacquired, hreleased⟩ := phSvcCaptureString_ledger view string true heap
      have hnone : ∀ l : List RelativeStringRef, objects (l.map fun _ => none) = [] := by
        intro l
        simp [objects]
      rw [captureStrings]
      dsimp only
      split
      · next hfailed =>
          have hcaptured := (phSvcCaptureString_confined true).failed hfailed
          rw [hcaptured.1] at hacquired
          refine ⟨?_, hreleased⟩
          rw [hacquired]
          exact congrArg (heap.acquired ++ ·) (hnone (string :: rest)).symm
      · obtain ⟨ihacquired, ihreleased⟩ := ih (phSvcCaptureString view string true heap).heap
        refine ⟨?_, ihreleased.trans hreleased⟩
        rw [ihacquired, hacquired, List.append_assoc, objects, objects, ← List.filterMap_append]
        rfl

theorem phSvcpReleaseRunAsServiceParameters_ledger (captured : List (Option CapturedString))
    (heap : SvcHeap) :
    (phSvcpReleaseRunAsServiceParameters captured heap).acquired = heap.acquired ∧
      (phSvcpReleaseRunAsServiceParameters captured heap).released =
        heap.released ++ objects captured := by
  rw [phSvcpReleaseRunAsServiceParameters]
  induction captured generalizing heap with
  | nil => simp [objects]
  | cons string rest ih =>
      rw [List.foldl_cons]
      cases string with
      | none => exact ih heap
      | some string =>
          obtain ⟨ihacquired, ihreleased⟩ := ih (heap.release string.object)
          refine ⟨ihacquired, ?_⟩
          rw [ihreleased, SvcHeap.release, List.append_assoc]
          rfl

theorem phSvcApiExecuteRunAsCommand_releases (view : ClientView) (processId : Nat)
    (payload : RunAsStrings RelativeStringRef) (execute : NtStatus) (heap : SvcHeap) :
    (phSvcApiExecuteRunAsCommand view processId payload execute heap).2.acquired =
        heap.acquired ++
          objects (phSvcpCaptureRunAsServiceParameters view payload heap).2.1 ∧
      (phSvcApiExecuteRunAsCommand view processId payload execute heap).2.released =
        heap.released ++
          objects (phSvcpCaptureRunAsServiceParameters view payload heap).2.1 := by
  obtain ⟨hacquired, hreleased⟩ := captureStrings_ledger view heap payload.toList
  obtain ⟨hkept, hgiven⟩ := phSvcpReleaseRunAsServiceParameters_ledger
    (captureStrings view heap payload.toList).2.1 (captureStrings view heap payload.toList).2.2
  rw [hacquired] at hkept
  rw [hreleased] at hgiven
  exact ⟨hkept, hgiven⟩

/-! ## Arguments arrive unchanged and confined -/

/-- The captures read inside the view and the copy, and take nothing if they fail; they
succeed only if the range is in the view or the string is absent and may be. What a client
puts into the section is what the service captures. What a run-as call captured it
releases. -/
theorem phSvcCapture_confined_and_unchanged :
    (∀ (view : ClientView) (string : RelativeStringRef) (allowNull : Bool) (heap : SvcHeap),
      (∀ alignment, Confined view string allowNull heap
        (phSvcProbeBuffer view string alignment allowNull heap)) ∧
      (∀ allocates, Confined view string allowNull heap
        (phSvcCaptureBuffer view string allowNull allocates heap)) ∧
      Confined view string allowNull heap (phSvcCaptureString view string allowNull heap) ∧
      ∀ allocates, Confined view string allowNull heap
        (phSvcCaptureSid view string allowNull allocates heap)) ∧
    (∀ (heap : PortHeap) (section_ section' : Mem) (arguments : List StringArgument)
      (strings : List (Option (List WChar))) (refs : List RelativeStringRef),
      List.Forall₂ Denotes arguments strings →
      Allocated heap (List.zipWith (stringBlock heap) arguments strings) →
      createStrings heap section_ arguments = some (refs, section') →
      List.Forall₂ (Arrives heap section') refs strings) ∧
    ∀ (view : ClientView) (processId : Nat) (payload : RunAsStrings RelativeStringRef)
      (execute : NtStatus) (heap : SvcHeap),
      (phSvcApiExecuteRunAsCommand view processId payload execute heap).2.acquired =
          heap.acquired ++
            objects (phSvcpCaptureRunAsServiceParameters view payload heap).2.1 ∧
        (phSvcApiExecuteRunAsCommand view processId payload execute heap).2.released =
          heap.released ++
            objects (phSvcpCaptureRunAsServiceParameters view payload heap).2.1 := by
  refine ⟨?_, ?_, ?_⟩
  · intro view string allowNull heap
    exact ⟨fun alignment => phSvcProbeBuffer_confined alignment allowNull,
      phSvcCaptureBuffer_confined allowNull, phSvcCaptureString_confined allowNull,
      phSvcCaptureSid_confined allowNull⟩
  · intro heap section_ section' arguments strings refs hdenotes hblocks h
    exact createStrings_arrive hdenotes hblocks h
  · intro view processId payload execute heap
    exact phSvcApiExecuteRunAsCommand_releases view processId payload execute heap

/-- A port heap of one page, with a block for each of two strings. -/
def pageHeap : PortHeap where
  base := 0x10000
  size := 4096
  fits := by decide
  size_le := by decide

/-- Two strings and an absent one arrive at a service that has the section elsewhere. -/
theorem phSvcCapture_two_strings :
    ∃ refs section',
      createStrings pageHeap (fun _ => 0)
          [⟨some [97, 0, 98], 6, some 0x10100⟩, ⟨none, 0, none⟩, ⟨some [0], sizeMax, some 0x10106⟩] =
        some (refs, section') ∧
      List.Forall₂ (Arrives pageHeap section') refs [some [97, 0, 98], none, some []] := by
  refine ⟨_, _, rfl, ?_⟩
  refine phSvcCapture_confined_and_unchanged.2.1 pageHeap (fun _ => 0) _
    [⟨some [97, 0, 98], 6, some 0x10100⟩, ⟨none, 0, none⟩, ⟨some [0], sizeMax, some 0x10106⟩]
    [some [97, 0, 98], none, some []] _ ?_ ?_ rfl
  · have hcounted : Denotes ⟨some [97, 0, 98], 6, some 0x10100⟩ (some [97, 0, 98]) :=
      @Denotes.counted [97, 0, 98] [] _ (by decide)
    have hterminated : Denotes ⟨some [0], sizeMax, some 0x10106⟩ (some []) :=
      @Denotes.terminated [] [] _ (by decide) (by decide)
    exact .cons hcounted (.cons (.absent _ _) (.cons hterminated .nil))
  · have hblocks : List.zipWith (stringBlock pageHeap)
        [⟨some [97, 0, 98], 6, some 0x10100⟩, ⟨none, 0, none⟩, ⟨some [0], sizeMax, some 0x10106⟩]
        [some [97, 0, 98], none, some []] = [some (256, 6), none, some (262, 0)] := rfl
    rw [hblocks]
    constructor
    · intro b hb
      simp only [List.mem_cons, Option.some.injEq, List.not_mem_nil, or_false, reduceCtorEq,
        false_or] at hb
      rcases hb with rfl | rfl
      · exact ⟨by decide, by decide, by decide, by decide⟩
      · exact ⟨by decide, by decide, by decide, by decide⟩
    · simp

/-- A reference with an offset of zero whose length is larger than the address space of the
view: null is captured. -/
theorem phSvcCaptureBuffer_absent :
    ¬ ∀ (view : ClientView) (string : RelativeStringRef) (allowNull allocates : Bool)
      (heap : SvcHeap),
      ntSuccess (phSvcCaptureBuffer view string allowNull allocates heap).status = true →
      InView view string := by
  intro h
  have hin := h ⟨0x10000, 0x11000, fun _ => 0, by decide, by decide⟩ ⟨0x80000000, 0⟩ true true
    ⟨0, [], []⟩ (by decide)
  exact absurd hin (by unfold InView; decide)

end SystemInformer.PhSvc
