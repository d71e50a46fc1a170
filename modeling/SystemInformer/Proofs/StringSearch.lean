import SystemInformer.PhLib.StringSearch

/-!
# What a string search reports

Between two rounds the last two bytes say what the counter stands for (`Tracks`). Behind two
printable bytes it counts the last characters, one byte each; behind one, the characters of a wide
string that ends here or one byte before. Behind two others it is zero. Every case of the table
keeps this, as long as a character that is to be appended still fits and the limit plus one is not
taken for zero; and from it the result that a case creates is read off (`round_tracks`).

A narrow string of two characters or more is counted from its start when the second character comes
in, unless a wide string long enough to be reported ends with the first one: then the counter is
cleared, and the two characters are lost (`narrow_counted`).
-/

namespace SystemInformer.PhLib

variable {context : StringSearchContext} {bytes : List UInt8} {i n start : Nat}

/-! ## The rounds -/

/-- The byte at an index, with any byte behind the end. -/
def byteAt (bytes : List UInt8) (i : Nat) : UInt8 := bytes.getD i 0

/-- The state before the round at the index, when nobody stops the search. -/
def stateAt (context : StringSearchContext) (bytes : List UInt8) : Nat → StringSearchState
  | 0 => .init
  | i + 1 => (searchRound context i (byteAt bytes i) (stateAt context bytes i)).1

def resultAt (context : StringSearchContext) (bytes : List UInt8) (i : Nat) :
    Option StringSearchResult :=
  (searchRound context i (byteAt bytes i) (stateAt context bytes i)).2

theorem searchLoop_results (callback : List StringSearchResult → Bool) (rest : List UInt8) :
    ∀ (i : Nat) (results : List StringSearchResult), bytes.drop i = rest →
      ∃ k ≤ rest.length,
        (searchLoop context callback i rest (stateAt context bytes i) results).2 =
          results ++ (List.range' i k).filterMap (resultAt context bytes) ∧
        ((searchLoop context callback i rest (stateAt context bytes i) results).1 = false →
          k = rest.length) := by
  induction rest with
  | nil =>
      intro i results _
      refine ⟨0, Nat.le_refl 0, ?_, fun _ => rfl⟩
      rw [searchLoop, List.range'_zero, List.filterMap_nil, List.append_nil]
  | cons byte rest ih =>
      intro i results hrest
      have hi : i < bytes.length := by
        have hlength := congrArg List.length hrest
        rw [List.length_drop, List.length_cons] at hlength
        omega
      rw [List.drop_eq_getElem_cons hi, List.cons.injEq] at hrest
      have hbyte : byteAt bytes i = byte := by
        rw [byteAt, List.getD_eq_getElem _ _ hi, hrest.1]
      have hround : searchRound context i byte (stateAt context bytes i) =
          (stateAt context bytes (i + 1), resultAt context bytes i) := by
        rw [stateAt, resultAt, hbyte]
      rw [searchLoop, hround]
      cases hresult : resultAt context bytes i with
      | none =>
          obtain ⟨k, hk, hlist, hall⟩ := ih (i + 1) results hrest.2
          refine ⟨k + 1, Nat.succ_le_succ hk, ?_, fun h => congrArg (· + 1) (hall h)⟩
          rw [List.range'_succ, List.filterMap_cons_none hresult]
          exact hlist
      | some result =>
          dsimp only
          split
          · refine ⟨1, Nat.succ_le_succ (Nat.zero_le _), ?_, fun h => absurd h.symm Bool.false_ne_true⟩
            rw [List.range'_succ, List.filterMap_cons_some hresult]
            rfl
          · obtain ⟨k, hk, hlist, hall⟩ := ih (i + 1) (results ++ [result]) hrest.2
            refine ⟨k + 1, Nat.succ_le_succ hk, ?_, fun h => congrArg (· + 1) (hall h)⟩
            rw [List.range'_succ, List.filterMap_cons_some hresult, hlist, List.append_assoc]
            rfl

theorem mem_results {callback : List StringSearchResult → Bool} {r : StringSearchResult}
    (h : r ∈ (phpSearchStrings context callback bytes).2) :
    ∃ i < bytes.length, resultAt context bytes i = some r := by
  obtain ⟨k, hk, hlist, -⟩ :=
    @searchLoop_results context bytes callback bytes 0 [] (List.drop_zero)
  rw [phpSearchStrings] at h
  rw [show StringSearchState.init = stateAt context bytes 0 from rfl, hlist, List.nil_append,
    List.mem_filterMap] at h
  obtain ⟨i, hi, hr⟩ := h
  rw [List.mem_range'_1] at hi
  exact ⟨i, by omega, hr⟩

theorem results_of_not_stopped {callback : List StringSearchResult → Bool}
    (h : (phpSearchStrings context callback bytes).1 = false) :
    (phpSearchStrings context callback bytes).2 =
      (List.range' 0 bytes.length).filterMap (resultAt context bytes) := by
  obtain ⟨k, hk, hlist, hall⟩ :=
    @searchLoop_results context bytes callback bytes 0 [] (List.drop_zero)
  rw [hall h] at hlist
  exact hlist

theorem stateAt_succ : (stateAt context bytes (i + 1)).byte1 = byteAt bytes i ∧
    (stateAt context bytes (i + 1)).printable1 = context.isPrintable (byteAt bytes i) ∧
    (stateAt context bytes (i + 1)).byte2 = (stateAt context bytes i).byte1 ∧
    (stateAt context bytes (i + 1)).printable2 = (stateAt context bytes i).printable1 :=
  ⟨rfl, rfl, rfl, rfl⟩

theorem of_printable1 (h : (stateAt context bytes i).printable1 = true) :
    ∃ k, i = k + 1 ∧ (stateAt context bytes i).byte1 = byteAt bytes k ∧
      context.isPrintable (byteAt bytes k) = true := by
  cases i with
  | zero => exact absurd h Bool.false_ne_true
  | succ k => exact ⟨k, rfl, rfl, h⟩

theorem of_printable2 (h : (stateAt context bytes i).printable2 = true) :
    ∃ k, i = k + 2 ∧ (stateAt context bytes i).byte1 = byteAt bytes (k + 1) ∧
      context.isPrintable (byteAt bytes k) = true := by
  match i, h with
  | 0, h => exact absurd h Bool.false_ne_true
  | 1, h => exact absurd h Bool.false_ne_true
  | k + 2, h => exact ⟨k, rfl, rfl, h⟩

/-! ## What the counter stands for -/

/-- The last `length` bytes before the index are the characters. -/
def NarrowAt (context : StringSearchContext) (bytes : List UInt8) (i length : Nat)
    (buffer : Nat → UInt8) : Prop :=
  ∃ a, a + length = i ∧ ∀ j < length,
    byteAt bytes (a + j) = buffer j ∧ context.isPrintable (buffer j) = true

/-- The characters stand before `last`, each with a zero behind it that is before the index. -/
def WideAt (context : StringSearchContext) (bytes : List UInt8) (i last length : Nat)
    (buffer : Nat → UInt8) : Prop :=
  ∃ a, a + 2 * length = last ∧ ∀ j < length,
    byteAt bytes (a + 2 * j) = buffer j ∧ context.isPrintable (buffer j) = true ∧
      (a + 2 * j + 1 < i → byteAt bytes (a + 2 * j + 1) = 0)

structure Tracks (context : StringSearchContext) (bytes : List UInt8) (i : Nat)
    (s : StringSearchState) : Prop where
  length_le : s.length ≤ searchBufferLength
  narrow : s.printable2 = true → s.printable1 = true → NarrowAt context bytes i s.length s.buffer
  wideChar : s.printable2 = false → s.printable1 = true →
    0 < s.length ∧ WideAt context bytes i (i + 1) s.length s.buffer
  wideZero : s.printable2 = true → s.printable1 = false →
    s.length = 0 ∨ WideAt context bytes i i s.length s.buffer
  other : s.printable2 = false → s.printable1 = false → s.length = 0

def Appends (context : StringSearchContext) (s : StringSearchState) (byte : UInt8) : Prop :=
  context.isPrintable byte = true ∧ (s.printable2 = s.printable1 ∨
    (s.printable2 = true ∧ (s.length = 0 ∨ s.byte1 = 0)))

/-- What is appended fits, and the limit plus one is not zero where it is needed. -/
structure RoundFits (context : StringSearchContext) (s : StringSearchState) (byte : UInt8) :
    Prop where
  appends : Appends context s byte → s.length < searchBufferLength
  limit : s.printable2 = false → s.printable1 = true → context.isPrintable byte = true →
    context.minimumLength + 1 < 2 ^ 32

structure SoundResult (context : StringSearchContext) (bytes : List UInt8)
    (r : StringSearchResult) : Prop where
  inside : 0 ≤ r.address ∧ r.address + r.length ≤ bytes.length
  minimum : context.minimumLength ≤ r.string.length
  narrow : r.unicode = false → r.length = r.string.length ∧ ∀ j < r.string.length,
    byteAt bytes (r.address.toNat + j) = r.string.getD j 0 ∧
      context.isPrintable (r.string.getD j 0) = true
  wide : r.unicode = true → r.length = 2 * r.string.length ∧ ∀ j < r.string.length,
    byteAt bytes (r.address.toNat + 2 * j) = r.string.getD j 0 ∧
      context.isPrintable (r.string.getD j 0) = true ∧
      byteAt bytes (r.address.toNat + 2 * j + 1) = 0

/-! ## One round -/

section

variable {s s' : StringSearchState} {byte : UInt8} {length last : Nat} {buffer : Nat → UInt8}

theorem tracks_narrow (h2 : s.printable2 = true) (h1 : s.printable1 = true)
    (hle : s.length ≤ searchBufferLength) (h : NarrowAt context bytes i s.length s.buffer) :
    Tracks context bytes i s :=
  ⟨hle, fun _ _ => h, fun h => absurd (h.symm.trans h2) Bool.false_ne_true,
    fun _ h => absurd (h.symm.trans h1) Bool.false_ne_true,
    fun h => absurd (h.symm.trans h2) Bool.false_ne_true⟩

theorem tracks_wideChar (h2 : s.printable2 = false) (h1 : s.printable1 = true)
    (hle : s.length ≤ searchBufferLength) (hpos : 0 < s.length)
    (h : WideAt context bytes i (i + 1) s.length s.buffer) : Tracks context bytes i s :=
  ⟨hle, fun h => absurd (h2.symm.trans h) Bool.false_ne_true, fun _ _ => ⟨hpos, h⟩,
    fun h => absurd (h2.symm.trans h) Bool.false_ne_true,
    fun _ h => absurd (h.symm.trans h1) Bool.false_ne_true⟩

theorem tracks_wideZero (h2 : s.printable2 = true) (h1 : s.printable1 = false)
    (hle : s.length ≤ searchBufferLength)
    (h : s.length = 0 ∨ WideAt context bytes i i s.length s.buffer) : Tracks context bytes i s :=
  ⟨hle, fun _ h => absurd (h1.symm.trans h) Bool.false_ne_true,
    fun h => absurd (h.symm.trans h2) Bool.false_ne_true, fun _ _ => h,
    fun h => absurd (h.symm.trans h2) Bool.false_ne_true⟩

theorem tracks_other (h2 : s.printable2 = false) (h1 : s.printable1 = false) (h : s.length = 0) :
    Tracks context bytes i s :=
  ⟨h.trans_le (Nat.zero_le _), fun h => absurd (h2.symm.trans h) Bool.false_ne_true,
    fun _ h => absurd (h1.symm.trans h) Bool.false_ne_true,
    fun h => absurd (h2.symm.trans h) Bool.false_ne_true, fun _ _ => h⟩

theorem NarrowAt.append (h : NarrowAt context bytes i length buffer)
    (hp : context.isPrintable (byteAt bytes i) = true) :
    NarrowAt context bytes (i + 1) (length + 1)
      (Function.update buffer length (byteAt bytes i)) := by
  obtain ⟨a, ha, hchars⟩ := h
  refine ⟨a, by omega, fun j hj => ?_⟩
  rcases Nat.lt_succ_iff_lt_or_eq.mp hj with hlt | rfl
  · rw [Function.update_of_ne hlt.ne]
    exact hchars j hlt
  · rw [Function.update_self, ha]
    exact ⟨rfl, hp⟩

theorem WideAt.append (h : length = 0 ∨ WideAt context bytes i i length buffer)
    (hp : context.isPrintable (byteAt bytes i) = true) :
    WideAt context bytes (i + 1) (i + 1 + 1) (length + 1)
      (Function.update buffer length (byteAt bytes i)) := by
  have hlast : ∀ {a}, a + 2 * length = i → ∀ {P : Prop},
      byteAt bytes (a + 2 * length) =
          Function.update buffer length (byteAt bytes i) length ∧
        context.isPrintable (Function.update buffer length (byteAt bytes i) length) = true ∧
        (a + 2 * length + 1 < i + 1 → P) := by
    intro a ha P
    rw [Function.update_self, ha]
    exact ⟨rfl, hp, fun hlt => absurd hlt (Nat.lt_irrefl _)⟩
  rcases h with rfl | ⟨a, ha, hchars⟩
  · refine ⟨i, rfl, fun j hj => ?_⟩
    obtain rfl : j = 0 := by omega
    exact hlast (Nat.add_zero i)
  · refine ⟨a, by omega, fun j hj => ?_⟩
    rcases Nat.lt_succ_iff_lt_or_eq.mp hj with hlt | rfl
    · rw [Function.update_of_ne hlt.ne]
      obtain ⟨hbyte, hprintable, hzero⟩ := hchars j hlt
      exact ⟨hbyte, hprintable, fun _ => hzero (by omega)⟩
    · exact hlast ha

theorem WideAt.zero (h : WideAt context bytes i (i + 1) length buffer)
    (hzero : byteAt bytes i = 0) : WideAt context bytes (i + 1) (i + 1) length buffer := by
  obtain ⟨a, ha, hchars⟩ := h
  refine ⟨a, ha, fun j hj => ?_⟩
  obtain ⟨hbyte, hprintable, hbehind⟩ := hchars j hj
  refine ⟨hbyte, hprintable, fun hlt => ?_⟩
  rcases Nat.lt_succ_iff_lt_or_eq.mp hlt with hlt | heq
  · exact hbehind hlt
  · rw [heq, hzero]

theorem WideAt.byte1 (h : WideAt context bytes (i + 1) (i + 1) length buffer)
    (hlength : length ≠ 0) : byteAt bytes i = 0 := by
  obtain ⟨a, ha, hchars⟩ := h
  have hplace : a + 2 * (length - 1) + 1 = i := by omega
  have hzero := (hchars (length - 1) (by omega)).2.2 (by omega)
  rwa [hplace] at hzero

theorem append_of_lt (h : s.length < searchBufferLength) :
    s.append byte = ⟨s.length + 1, Function.update s.buffer s.length byte, false⟩ := if_pos h

/-! The cases of the table, by what is printable. -/

theorem table_narrow (h2 : s.printable2 = true) (h1 : s.printable1 = true)
    (hp : context.isPrintable byte = true) : searchTable context s byte = s.append byte := by
  rw [searchTable, h2, h1, hp]

theorem table_narrowEnd (h2 : s.printable2 = true) (h1 : s.printable1 = true)
    (hp : context.isPrintable byte = false) :
    searchTable context s byte =
      if context.minimumLength ≤ s.length then ⟨s.length, s.buffer, true⟩
      else if byte = 0 then ⟨1, Function.update s.buffer 0 s.byte1, false⟩
      else ⟨0, s.buffer, false⟩ := by
  rw [searchTable, h2, h1, hp]

theorem table_wide (h2 : s.printable2 = true) (h1 : s.printable1 = false)
    (hp : context.isPrintable byte = true) :
    searchTable context s byte =
      if s.length = 0 ∨ s.byte1 = 0 then s.append byte else ⟨0, s.buffer, false⟩ := by
  rw [searchTable, h2, h1, hp]

theorem table_wideEnd (h2 : s.printable2 = true) (h1 : s.printable1 = false)
    (hp : context.isPrintable byte = false) :
    searchTable context s byte =
      if context.minimumLength ≤ s.length then ⟨s.length, s.buffer, true⟩
      else ⟨0, s.buffer, false⟩ := by
  rw [searchTable, h2, h1, hp]

theorem table_turn (h2 : s.printable2 = false) (h1 : s.printable1 = true)
    (hp : context.isPrintable byte = true) :
    searchTable context s byte =
      if (context.minimumLength + 1) % 2 ^ 32 ≤ s.length then
        ⟨(s.length + (2 ^ 32 - 1)) % 2 ^ 32, s.buffer, true⟩
      else ⟨2, Function.update (Function.update s.buffer 0 s.byte1) 1 byte, false⟩ := by
  rw [searchTable, h2, h1, hp]

theorem table_wideZero (h2 : s.printable2 = false) (h1 : s.printable1 = true)
    (hp : context.isPrintable byte = false) :
    searchTable context s byte =
      if s.byte2 = 0 ∧ byte = 0 then ⟨s.length, s.buffer, false⟩
      else if s.length = 1 ∧ byte = 0 then ⟨s.length, s.buffer, false⟩
      else ⟨0, s.buffer, false⟩ := by
  rw [searchTable, h2, h1, hp]

theorem table_start (h2 : s.printable2 = false) (h1 : s.printable1 = false)
    (hp : context.isPrintable byte = true) : searchTable context s byte = s.append byte := by
  rw [searchTable, h2, h1, hp]

theorem table_other (h2 : s.printable2 = false) (h1 : s.printable1 = false)
    (hp : context.isPrintable byte = false) :
    searchTable context s byte = ⟨s.length, s.buffer, false⟩ := by
  rw [searchTable, h2, h1, hp]

theorem stateAt_of_step {step : StringSearchStep}
    (h : searchTable context (stateAt context bytes i) (byteAt bytes i) = step) :
    stateAt context bytes (i + 1) =
      ⟨byteAt bytes i, (stateAt context bytes i).byte1, context.isPrintable (byteAt bytes i),
        (stateAt context bytes i).printable1, if step.creates then 0 else step.length,
        step.buffer⟩ := by
  rw [stateAt, searchRound, h]

theorem limit_eq (h : context.minimumLength + 1 < 2 ^ 32) :
    (context.minimumLength + 1) % 2 ^ 32 = context.minimumLength + 1 := Nat.mod_eq_of_lt h

theorem decrement_eq (hpos : 0 < length) (hle : length ≤ searchBufferLength) :
    (length + (2 ^ 32 - 1)) % 2 ^ 32 = length - 1 := by
  rw [searchBufferLength] at hle
  omega

theorem round_tracks
    (hfits : RoundFits context (stateAt context bytes i) (byteAt bytes i))
    (h : Tracks context bytes i (stateAt context bytes i)) :
    Tracks context bytes (i + 1) (stateAt context bytes (i + 1)) := by
  have hle := h.length_le
  cases h2 : (stateAt context bytes i).printable2 with
  | true =>
      cases h1 : (stateAt context bytes i).printable1 with
      | true =>
          obtain ⟨k, rfl, hbyte1, hp1⟩ := of_printable1 h1
          cases hp : context.isPrintable (byteAt bytes (k + 1)) with
          | true =>
              have hlt := hfits.appends ⟨hp, .inl (h2.trans h1.symm)⟩
              have hstep := (table_narrow h2 h1 hp).trans (append_of_lt hlt)
              rw [stateAt_of_step hstep]
              exact tracks_narrow h1 hp hlt ((h.narrow h2 h1).append hp)
          | false =>
              by_cases hlimit : context.minimumLength ≤ (stateAt context bytes (k + 1)).length
              · have hstep := (table_narrowEnd h2 h1 hp).trans (if_pos hlimit)
                rw [stateAt_of_step hstep]
                exact tracks_wideZero h1 hp (Nat.zero_le _) (.inl rfl)
              by_cases hzero : byteAt bytes (k + 1) = 0
              · have hstep := (table_narrowEnd h2 h1 hp).trans ((if_neg hlimit).trans (if_pos hzero))
                rw [stateAt_of_step hstep]
                refine tracks_wideZero h1 hp (show 1 ≤ searchBufferLength by decide) (.inr ⟨k, rfl, fun j hj => ?_⟩)
                obtain rfl : j = 0 := Nat.lt_one_iff.mp hj
                dsimp only
                rw [Function.update_self, hbyte1]
                exact ⟨rfl, hp1, fun _ => hzero⟩
              · have hstep := (table_narrowEnd h2 h1 hp).trans ((if_neg hlimit).trans (if_neg hzero))
                rw [stateAt_of_step hstep]
                exact tracks_wideZero h1 hp (Nat.zero_le _) (.inl rfl)
      | false =>
          obtain ⟨k, rfl, hbyte1, -⟩ := of_printable2 h2
          have hwide := h.wideZero h2 h1
          have hempty : (stateAt context bytes (k + 2)).length = 0 ∨
              (stateAt context bytes (k + 2)).byte1 = 0 := by
            by_cases hlength : (stateAt context bytes (k + 2)).length = 0
            · exact .inl hlength
            · exact .inr (hbyte1.trans ((hwide.resolve_left hlength).byte1 hlength))
          cases hp : context.isPrintable (byteAt bytes (k + 2)) with
          | true =>
              have hlt := hfits.appends ⟨hp, .inr ⟨h2, hempty⟩⟩
              have hstep := (table_wide h2 h1 hp).trans ((if_pos hempty).trans (append_of_lt hlt))
              rw [stateAt_of_step hstep]
              exact tracks_wideChar h1 hp hlt (Nat.succ_pos _) (WideAt.append hwide hp)
          | false =>
              by_cases hlimit : context.minimumLength ≤ (stateAt context bytes (k + 2)).length
              · have hstep := (table_wideEnd h2 h1 hp).trans (if_pos hlimit)
                rw [stateAt_of_step hstep]
                exact tracks_other h1 hp rfl
              · have hstep := (table_wideEnd h2 h1 hp).trans (if_neg hlimit)
                rw [stateAt_of_step hstep]
                exact tracks_other h1 hp rfl
  | false =>
      cases h1 : (stateAt context bytes i).printable1 with
      | true =>
          obtain ⟨k, rfl, hbyte1, hp1⟩ := of_printable1 h1
          obtain ⟨hpos, hwide⟩ := h.wideChar h2 h1
          cases hp : context.isPrintable (byteAt bytes (k + 1)) with
          | true =>
              have hlimit := limit_eq (hfits.limit h2 h1 hp)
              by_cases hlong : (context.minimumLength + 1) % 2 ^ 32 ≤
                  (stateAt context bytes (k + 1)).length
              · have hstep := (table_turn h2 h1 hp).trans (if_pos hlong)
                rw [stateAt_of_step hstep]
                exact tracks_narrow h1 hp (Nat.zero_le _)
                  ⟨k + 1 + 1, rfl, fun j hj => absurd hj (Nat.not_lt_zero j)⟩
              · have hstep := (table_turn h2 h1 hp).trans (if_neg hlong)
                rw [stateAt_of_step hstep]
                refine tracks_narrow h1 hp (show 2 ≤ searchBufferLength by decide)
                  ⟨k, rfl, fun j hj => ?_⟩
                dsimp only
                obtain rfl | rfl : j = 0 ∨ j = 1 := by
                  have : j < 2 := hj
                  omega
                · rw [Function.update_of_ne (by decide), Function.update_self, hbyte1]
                  exact ⟨rfl, hp1⟩
                · rw [Function.update_self]
                  exact ⟨rfl, hp⟩
          | false =>
              by_cases hkeep : byteAt bytes (k + 1) = 0 ∧
                  ((stateAt context bytes (k + 1)).byte2 = 0 ∨
                    (stateAt context bytes (k + 1)).length = 1)
              · have hstep : searchTable context (stateAt context bytes (k + 1))
                    (byteAt bytes (k + 1)) =
                      ⟨(stateAt context bytes (k + 1)).length,
                        (stateAt context bytes (k + 1)).buffer, false⟩ := by
                  rw [table_wideZero h2 h1 hp]
                  split
                  · rfl
                  · next hbyte2 =>
                      exact if_pos ⟨hkeep.2.resolve_left fun h => hbyte2 ⟨h, hkeep.1⟩, hkeep.1⟩
                rw [stateAt_of_step hstep]
                exact tracks_wideZero h1 hp hle (.inr (hwide.zero hkeep.1))
              · have hstep := ((table_wideZero h2 h1 hp).trans
                  (if_neg fun h => hkeep ⟨h.2, .inl h.1⟩)).trans
                  (if_neg fun h => hkeep ⟨h.2, .inr h.1⟩)
                rw [stateAt_of_step hstep]
                exact tracks_wideZero h1 hp (Nat.zero_le _) (.inl rfl)
      | false =>
          have hzero := h.other h2 h1
          cases hp : context.isPrintable (byteAt bytes i) with
          | true =>
              have hlt := hfits.appends ⟨hp, .inl (h2.trans h1.symm)⟩
              have hstep := (table_start h2 h1 hp).trans (append_of_lt hlt)
              rw [stateAt_of_step hstep]
              exact tracks_wideChar h1 hp hlt (Nat.succ_pos _) (WideAt.append (.inl hzero) hp)
          | false =>
              have hstep := table_other h2 h1 hp
              rw [stateAt_of_step hstep]
              exact tracks_other h1 hp hzero

/-! ## The results -/

theorem append_creates : (s.append byte).creates = false := by
  rw [StringSearchState.append]
  split <;> rfl

/-- A result is created at the end of a narrow string, at the end of a wide one, and where a narrow
string begins with the last character of a wide one. -/
theorem creates_cases (h : (searchTable context s byte).creates = true) :
    (s.printable2 = true ∧ s.printable1 = true ∧ context.isPrintable byte = false ∧
      context.minimumLength ≤ s.length ∧
      searchTable context s byte = ⟨s.length, s.buffer, true⟩) ∨
    (s.printable2 = true ∧ s.printable1 = false ∧ context.isPrintable byte = false ∧
      context.minimumLength ≤ s.length ∧
      searchTable context s byte = ⟨s.length, s.buffer, true⟩) ∨
    (s.printable2 = false ∧ s.printable1 = true ∧ context.isPrintable byte = true ∧
      (context.minimumLength + 1) % 2 ^ 32 ≤ s.length ∧
      searchTable context s byte = ⟨(s.length + (2 ^ 32 - 1)) % 2 ^ 32, s.buffer, true⟩) := by
  cases h2 : s.printable2 with
  | true =>
      cases h1 : s.printable1 with
      | true =>
          cases hp : context.isPrintable byte with
          | true =>
              rw [table_narrow h2 h1 hp, append_creates] at h
              exact absurd h Bool.false_ne_true
          | false =>
              rw [table_narrowEnd h2 h1 hp] at h ⊢
              by_cases hlimit : context.minimumLength ≤ s.length
              · exact .inl ⟨rfl, rfl, rfl, hlimit, if_pos hlimit⟩
              · rw [if_neg hlimit] at h
                split at h <;> exact absurd h Bool.false_ne_true
      | false =>
          cases hp : context.isPrintable byte with
          | true =>
              rw [table_wide h2 h1 hp] at h
              split at h
              · rw [append_creates] at h
                exact absurd h Bool.false_ne_true
              · exact absurd h Bool.false_ne_true
          | false =>
              rw [table_wideEnd h2 h1 hp] at h ⊢
              by_cases hlimit : context.minimumLength ≤ s.length
              · exact .inr (.inl ⟨rfl, rfl, rfl, hlimit, if_pos hlimit⟩)
              · rw [if_neg hlimit] at h
                exact absurd h Bool.false_ne_true
  | false =>
      cases h1 : s.printable1 with
      | true =>
          cases hp : context.isPrintable byte with
          | true =>
              rw [table_turn h2 h1 hp] at h ⊢
              by_cases hlimit : (context.minimumLength + 1) % 2 ^ 32 ≤ s.length
              · exact .inr (.inr ⟨rfl, rfl, rfl, hlimit, if_pos hlimit⟩)
              · rw [if_neg hlimit] at h
                exact absurd h Bool.false_ne_true
          | false =>
              rw [table_wideZero h2 h1 hp] at h
              split at h
              · exact absurd h Bool.false_ne_true
              · split at h <;> exact absurd h Bool.false_ne_true
      | false =>
          cases hp : context.isPrintable byte with
          | true =>
              rw [table_start h2 h1 hp, append_creates] at h
              exact absurd h Bool.false_ne_true
          | false =>
              rw [table_other h2 h1 hp] at h
              exact absurd h Bool.false_ne_true

theorem resultAt_some {r : StringSearchResult} (h : resultAt context bytes i = some r) :
    (searchTable context (stateAt context bytes i) (byteAt bytes i)).creates = true ∧
      r = createResult (stateAt context bytes i).printable1
        (context.isPrintable (byteAt bytes i)) i
        (searchTable context (stateAt context bytes i) (byteAt bytes i)) := by
  rw [resultAt, searchRound] at h
  dsimp only at h
  split at h
  · next hcreates => exact ⟨hcreates, (Option.some.inj h).symm⟩
  · cases h

theorem string_length (hle : length ≤ searchBufferLength) :
    ((List.range (min length searchBufferLength)).map buffer).length = length := by
  rw [List.length_map, List.length_range, Nat.min_eq_left hle]

theorem string_getD {j : Nat} (hle : length ≤ searchBufferLength) (hj : j < length) :
    ((List.range (min length searchBufferLength)).map buffer).getD j 0 = buffer j := by
  rw [List.getD_eq_getElem _ _ (by rw [string_length hle]; exact hj), List.getElem_map,
    List.getElem_range]

theorem sound_narrow {a : Nat} (hi : i < bytes.length) (hle : length ≤ searchBufferLength)
    (hlimit : context.minimumLength ≤ length) (ha : a + length = i)
    (hchars : ∀ j < length,
      byteAt bytes (a + j) = buffer j ∧ context.isPrintable (buffer j) = true) :
    SoundResult context bytes (createResult true false i ⟨length, buffer, true⟩) := by
  have haddress : (createResult true false i ⟨length, buffer, true⟩).address = a := by
    show (i : Int) - (0 : Nat) - length = a
    omega
  have hlength : (createResult true false i ⟨length, buffer, true⟩).string.length = length :=
    string_length hle
  refine ⟨?_, hlimit.trans hlength.ge, fun _ => ⟨hlength.symm, fun j hj => ?_⟩,
    fun h => absurd h Bool.false_ne_true⟩
  · rw [haddress]
    show (0 : Int) ≤ a ∧ (a : Int) + (length : Nat) ≤ (bytes.length : Nat)
    omega
  · rw [hlength] at hj
    have hget : (createResult true false i ⟨length, buffer, true⟩).string.getD j 0 = buffer j :=
      string_getD hle hj
    rw [haddress, hget]
    exact hchars j hj

theorem sound_wide {a bias : Nat} {p : Bool} (hi : i < bytes.length)
    (hle : length ≤ searchBufferLength) (hlimit : context.minimumLength ≤ length)
    (hbias : bias = if p then 1 else 0) (ha : a + 2 * length + bias = i)
    (hchars : ∀ j < length, byteAt bytes (a + 2 * j) = buffer j ∧
      context.isPrintable (buffer j) = true ∧ byteAt bytes (a + 2 * j + 1) = 0) :
    SoundResult context bytes (createResult p p i ⟨length, buffer, true⟩) := by
  have hsmall : length * 2 % 2 ^ 32 = 2 * length := by
    rw [searchBufferLength] at hle
    omega
  have hwide : (p == p) = true := beq_self_eq_true p
  have hbytes : (createResult p p i ⟨length, buffer, true⟩).length = 2 * length := by
    show (if (p == p) = true then length * 2 % 2 ^ 32 else length) = _
    rw [if_pos hwide, hsmall]
  have haddress : (createResult p p i ⟨length, buffer, true⟩).address = a := by
    show (i : Int) - ((if p then 1 else 0 : Nat) : Nat) -
      ((if (p == p) = true then length * 2 % 2 ^ 32 else length : Nat) : Nat) = a
    rw [if_pos hwide, hsmall, ← hbias]
    omega
  have hlength : (createResult p p i ⟨length, buffer, true⟩).string.length = length :=
    string_length hle
  refine ⟨?_, hlimit.trans hlength.ge, fun h => absurd (h.symm.trans hwide) Bool.false_ne_true,
    fun _ => ⟨by rw [hbytes, hlength], fun j hj => ?_⟩⟩
  · rw [haddress, hbytes]
    omega
  · rw [hlength] at hj
    have hget : (createResult p p i ⟨length, buffer, true⟩).string.getD j 0 = buffer j :=
      string_getD hle hj
    rw [haddress, hget]
    exact hchars j hj

theorem round_sound {r : StringSearchResult} (hi : i < bytes.length)
    (hfits : RoundFits context (stateAt context bytes i) (byteAt bytes i))
    (h : Tracks context bytes i (stateAt context bytes i))
    (hr : resultAt context bytes i = some r) : SoundResult context bytes r := by
  obtain ⟨hcreates, rfl⟩ := resultAt_some hr
  have hmin := context.minimumLength_pos
  obtain ⟨h2, h1, hp, hlimit, hstep⟩ | ⟨h2, h1, hp, hlimit, hstep⟩ | ⟨h2, h1, hp, hlimit, hstep⟩ :=
    creates_cases hcreates
  · obtain ⟨a, ha, hchars⟩ := h.narrow h2 h1
    rw [h1, hp, hstep]
    exact sound_narrow hi h.length_le hlimit ha hchars
  · obtain ⟨a, ha, hchars⟩ := (h.wideZero h2 h1).resolve_left (by omega)
    rw [h1, hp, hstep]
    refine sound_wide hi h.length_le hlimit rfl ha fun j hj => ?_
    obtain ⟨hbyte, hprintable, hzero⟩ := hchars j hj
    exact ⟨hbyte, hprintable, hzero (by omega)⟩
  · obtain ⟨hpos, a, ha, hchars⟩ := h.wideChar h2 h1
    have hle := h.length_le
    rw [limit_eq (hfits.limit h2 h1 hp)] at hlimit
    rw [h1, hp, hstep, decrement_eq hpos hle]
    refine sound_wide hi ((Nat.sub_le _ 1).trans hle) (by omega) rfl (a := a)
      (by show a + 2 * (_ - 1) + 1 = i; omega) fun j hj => ?_
    obtain ⟨hbyte, hprintable, hzero⟩ := hchars j (by omega)
    exact ⟨hbyte, hprintable, hzero (by omega)⟩

end

theorem stateAt_tracks : ∀ i,
    (∀ k < i, RoundFits context (stateAt context bytes k) (byteAt bytes k)) →
    Tracks context bytes i (stateAt context bytes i) := by
  intro i
  induction i with
  | zero => exact fun _ => tracks_other rfl rfl rfl
  | succ i ih =>
      intro h
      exact round_tracks (h i (Nat.lt_succ_self i)) (ih fun k hk => h k (Nat.lt_succ_of_lt hk))

/-- Each result is sound if, up to the round that created it, nothing has been appended to a full
buffer and the limit plus one has not been taken for zero. -/
theorem phpSearchStrings_sound (context : StringSearchContext)
    (callback : List StringSearchResult → Bool) (bytes : List UInt8) :
    ∀ r ∈ (phpSearchStrings context callback bytes).2,
      ∃ i < bytes.length, resultAt context bytes i = some r ∧
        ((∀ k ≤ i, RoundFits context (stateAt context bytes k) (byteAt bytes k)) →
          SoundResult context bytes r) := by
  intro r hr
  obtain ⟨i, hi, hresult⟩ := mem_results hr
  refine ⟨i, hi, hresult, fun h => ?_⟩
  exact round_sound hi (h i le_rfl) (stateAt_tracks i fun k hk => h k hk.le) hresult

theorem phpSearchStrings_sound_short :
    ∃ i < [(0x61 : UInt8), 0x62, 0].length,
      resultAt ⟨1, false, by decide, by decide⟩ [0x61, 0x62, 0] i =
        some ⟨false, 0, 2, [0x61, 0x62]⟩ ∧
        ((∀ k ≤ i, RoundFits ⟨1, false, by decide, by decide⟩
            (stateAt ⟨1, false, by decide, by decide⟩ [0x61, 0x62, 0] k)
            (byteAt [0x61, 0x62, 0] k)) →
          SoundResult ⟨1, false, by decide, by decide⟩ [0x61, 0x62, 0]
            ⟨false, 0, 2, [0x61, 0x62]⟩) :=
  phpSearchStrings_sound ⟨1, false, by decide, by decide⟩ (fun _ => false) [0x61, 0x62, 0] _
    (by decide)

/-- With the largest limit, an empty string is reported where a string begins. -/
theorem phpSearchStrings_reportsEmpty :
    ¬ ∀ r ∈ (phpSearchStrings ⟨2 ^ 32 - 1, false, by decide, by decide⟩ (fun _ => false)
        [0x78, 0x79]).2,
      SoundResult ⟨2 ^ 32 - 1, false, by decide, by decide⟩ [0x78, 0x79] r := by
  intro h
  have hmem : (⟨true, 0, 0, []⟩ : StringSearchResult) ∈
      (phpSearchStrings ⟨2 ^ 32 - 1, false, by decide, by decide⟩ (fun _ => false)
        [0x78, 0x79]).2 := by
    decide
  exact absurd (h _ hmem).minimum (by decide)

/-! ## Narrow strings -/

/-- A run of printable bytes with others around it, and one behind it in the buffer. -/
structure TerminatedRun (context : StringSearchContext) (bytes : List UInt8) (start n : Nat) :
    Prop where
  inside : start + n < bytes.length
  printable : ∀ j < n, context.isPrintable (byteAt bytes (start + j)) = true
  before : ∀ k, start = k + 1 → context.isPrintable (byteAt bytes k) = false
  behind : context.isPrintable (byteAt bytes (start + n)) = false

/-- The counter counts the bytes of the run from `dropped` on. -/
structure Counts (bytes : List UInt8) (start dropped k : Nat) (s : StringSearchState) : Prop where
  printable2 : s.printable2 = true
  printable1 : s.printable1 = true
  length : dropped + s.length = k
  chars : ∀ j < s.length, s.buffer j = byteAt bytes (start + dropped + j)

theorem run_second (h : TerminatedRun context bytes start n) (hn : 2 ≤ n)
    (hlimit : context.minimumLength + 1 < 2 ^ 32) :
    Counts bytes start
      (if context.minimumLength < (stateAt context bytes (start + 1)).length then 2 else 0) 2
      (stateAt context bytes (start + 2)) := by
  have h1 : (stateAt context bytes (start + 1)).printable1 = true := h.printable 0 (by omega)
  have h2 : (stateAt context bytes (start + 1)).printable2 = false := by
    cases start with
    | zero => rfl
    | succ k => exact h.before k rfl
  have hp : context.isPrintable (byteAt bytes (start + 1)) = true := h.printable 1 (by omega)
  have htable := table_turn h2 h1 hp
  rw [limit_eq hlimit] at htable
  split
  · next hlong =>
      rw [stateAt_of_step (htable.trans (if_pos hlong))]
      exact ⟨h1, hp, rfl, fun j hj => absurd hj (Nat.not_lt_zero j)⟩
  · next hshort =>
      rw [stateAt_of_step (htable.trans (if_neg hshort))]
      refine ⟨h1, hp, rfl, fun j hj => ?_⟩
      dsimp only
      obtain rfl | rfl : j = 0 ∨ j = 1 := by
        have : j < 2 := hj
        omega
      · rw [Function.update_of_ne (by decide), Function.update_self]
        exact (stateAt_succ).1
      · rw [Function.update_self]

theorem run_counted (h : TerminatedRun context bytes start n) (hcap : n ≤ searchBufferLength)
    {dropped : Nat} (hsecond : Counts bytes start dropped 2 (stateAt context bytes (start + 2))) :
    ∀ k, 2 ≤ k → k ≤ n → Counts bytes start dropped k (stateAt context bytes (start + k)) := by
  intro k hk
  induction k, hk using Nat.le_induction with
  | base => exact fun _ => hsecond
  | succ k hk ih =>
      intro hkn
      obtain ⟨h2, h1, hlength, hchars⟩ := ih (Nat.le_of_succ_le hkn)
      have hp : context.isPrintable (byteAt bytes (start + k)) = true := h.printable k hkn
      have hlt : (stateAt context bytes (start + k)).length < searchBufferLength := by omega
      have hstep := (table_narrow h2 h1 hp).trans (append_of_lt hlt)
      rw [← Nat.add_assoc, stateAt_of_step hstep]
      refine ⟨h1, hp, congrArg (· + 1) hlength, fun j hj => ?_⟩
      dsimp only
      rcases Nat.lt_succ_iff_lt_or_eq.mp (show j < _ + 1 from hj) with hlt | rfl
      · rw [Function.update_of_ne hlt.ne]
        exact hchars j hlt
      · rw [Function.update_self, Nat.add_assoc, hlength]

theorem narrow_end {r : StringSearchResult} (hr : resultAt context bytes i = some r)
    (hnarrow : r.unicode = false) :
    (stateAt context bytes i).printable2 = true ∧ (stateAt context bytes i).printable1 = true ∧
      context.isPrintable (byteAt bytes i) = false ∧
      context.minimumLength ≤ (stateAt context bytes i).length ∧
      r = createResult true false i
        ⟨(stateAt context bytes i).length, (stateAt context bytes i).buffer, true⟩ := by
  obtain ⟨hcreates, rfl⟩ := resultAt_some hr
  obtain ⟨h2, h1, hp, hlimit, hstep⟩ | ⟨h2, h1, hp, hlimit, hstep⟩ | ⟨h2, h1, hp, hlimit, hstep⟩ :=
    creates_cases hcreates
  · rw [h1, hp, hstep]
    exact ⟨h2, rfl, rfl, hlimit, rfl⟩
  · rw [h1, hp] at hnarrow
    exact absurd hnarrow.symm Bool.false_ne_true
  · rw [h1, hp] at hnarrow
    exact absurd hnarrow.symm Bool.false_ne_true

theorem narrow_range {r : StringSearchResult} (hr : resultAt context bytes i = some r)
    (hnarrow : r.unicode = false) : r.address + r.length = i := by
  obtain ⟨-, -, -, -, rfl⟩ := narrow_end hr hnarrow
  show (i : Int) - (0 : Nat) - ((stateAt context bytes i).length : Nat) +
    ((stateAt context bytes i).length : Nat) = i
  omega

def runResult (bytes : List UInt8) (start n : Nat) : StringSearchResult :=
  ⟨false, start, n, (List.range n).map fun j => byteAt bytes (start + j)⟩

def coversRun (start n : Nat) (r : StringSearchResult) : Bool :=
  r.unicode = false ∧ r.address = start ∧ r.length = n

theorem filter_results {f : Nat → Option StringSearchResult} {q : StringSearchResult → Bool}
    {e length : Nat} (he : e < length)
    (honly : ∀ i r, f i = some r → q r = true → i = e) :
    ((List.range' 0 length).filterMap f).filter q = ((f e).filter q).toList := by
  have hnone : ∀ l : List Nat, e ∉ l → (l.filterMap f).filter q = [] := by
    intro l hl
    refine List.filter_eq_nil_iff.mpr fun r hr hq => ?_
    obtain ⟨i, hi, hf⟩ := List.mem_filterMap.mp hr
    exact hl (honly i r hf hq ▸ hi)
  have hsplit : List.range' 0 length =
      List.range' 0 e ++ e :: List.range' (e + 1) (length - (e + 1)) := by
    have hcons : e :: List.range' (e + 1) (length - (e + 1)) = List.range' (0 + e) (length - e) := by
      rw [Nat.zero_add, ← List.range'_succ]
      congr 1
      omega
    rw [hcons, List.range'_append_1]
    congr 1
    omega
  rw [hsplit, List.filterMap_append, List.filter_append, hnone _ (by simp), List.nil_append]
  have hrest := hnone (List.range' (e + 1) (length - (e + 1))) (by simp)
  cases hfe : f e with
  | none =>
      rw [List.filterMap_cons_none hfe]
      exact hrest
  | some r =>
      rw [List.filterMap_cons_some hfe, List.filter_cons, hrest, Option.filter_some]
      split <;> rfl

theorem run_reported_iff (h : TerminatedRun context bytes start n)
    (hmin : context.minimumLength ≤ n) (hn : 2 ≤ n) (hcap : n ≤ searchBufferLength) :
    (resultAt context bytes (start + n)).filter (coversRun start n) =
        some (runResult bytes start n) ↔
      (stateAt context bytes (start + 1)).length ≤ context.minimumLength := by
  have hlimit : context.minimumLength + 1 < 2 ^ 32 := by
    rw [searchBufferLength] at hcap
    omega
  have hcounts := run_counted h hcap (run_second h hn hlimit) n hn le_rfl
  generalize hdropped : (if context.minimumLength < (stateAt context bytes (start + 1)).length
    then 2 else 0) = dropped at hcounts
  obtain ⟨h2, h1, hlength, hchars⟩ := hcounts
  constructor
  · intro hreported
    obtain ⟨hr, -⟩ := Option.filter_eq_some_iff.mp hreported
    have hrange := narrow_end hr rfl
    have hlen : n = (stateAt context bytes (start + n)).length :=
      congrArg StringSearchResult.length hrange.2.2.2.2
    by_contra hlong
    rw [if_pos (Nat.not_le.mp hlong)] at hdropped
    omega
  · intro hshort
    rw [if_neg (Nat.not_lt.mpr hshort)] at hdropped
    subst hdropped
    rw [Nat.zero_add] at hlength
    have hstep := (table_narrowEnd h2 h1 h.behind).trans (if_pos (hmin.trans hlength.ge))
    have hresult : resultAt context bytes (start + n) = some (runResult bytes start n) := by
      rw [resultAt, searchRound, hstep, h1, h.behind, hlength]
      refine congrArg some (StringSearchResult.mk.injEq .. |>.mpr ⟨rfl, ?_, rfl, ?_⟩)
      · show ((start + n : Nat) : Int) - (0 : Nat) - (n : Nat) = start
        omega
      · show (List.range (min n searchBufferLength)).map _ = _
        rw [Nat.min_eq_left hcap]
        refine List.map_congr_left fun j hj => ?_
        exact hchars j (by rw [hlength]; exact List.mem_range.mp hj)
    rw [hresult, Option.filter_some, if_pos]
    exact decide_eq_true ⟨rfl, rfl, rfl⟩

/-- A run is reported, as one result that covers exactly it, if and only if the counter is not above
the limit when its second byte comes in. -/
theorem phpSearchStrings_reports_iff (context : StringSearchContext)
    (callback : List StringSearchResult → Bool) (bytes : List UInt8) (start n : Nat)
    (hfinished : (phpSearchStrings context callback bytes).1 = false)
    (hrun : TerminatedRun context bytes start n) (hmin : max context.minimumLength 2 ≤ n)
    (hcap : n ≤ searchBufferLength) :
    (phpSearchStrings context callback bytes).2.filter (coversRun start n) =
        [runResult bytes start n] ↔
      (stateAt context bytes (start + 1)).length ≤ context.minimumLength := by
  rw [results_of_not_stopped hfinished, filter_results hrun.inside,
    ← run_reported_iff hrun ((Nat.le_max_left _ _).trans hmin) ((Nat.le_max_right _ _).trans hmin)
      hcap]
  · cases (resultAt context bytes (start + n)).filter (coversRun start n) with
    | none => exact iff_of_false (List.cons_ne_nil _ _).symm (Option.some_ne_none _).symm
    | some r =>
        rw [Option.toList_some, List.singleton_inj, Option.some.injEq]
  · intro i r hr hcovers
    obtain ⟨hnarrow, haddress, hlength⟩ := of_decide_eq_true hcovers
    have hrange := narrow_range hr hnarrow
    rw [haddress, hlength] at hrange
    omega

/-- `ab` and a zero. -/
theorem phpSearchStrings_reports_short :
    (phpSearchStrings ⟨1, false, by decide, by decide⟩ (fun _ => false) [0x61, 0x62, 0]).2.filter
        (coversRun 0 2) = [runResult [0x61, 0x62, 0] 0 2] ↔
      (stateAt ⟨1, false, by decide, by decide⟩ [0x61, 0x62, 0] 1).length ≤ 1 :=
  phpSearchStrings_reports_iff ⟨1, false, by decide, by decide⟩ (fun _ => false) [0x61, 0x62, 0] 0
    2 (by decide)
    ⟨by decide, by decide, fun _ h => absurd h (by omega), by decide⟩ (by decide)
    (by decide)

/-- A run in front of which a wide string stands that begins at the start of the buffer. -/
def afterWide : List UInt8 := [0x61, 0, 0x62, 0, 0x63, 0, 0x78, 0x79, 0x7a, 1]

/-- The wide string `abc` in front of `xyz` takes `x` and `y` away. -/
theorem phpSearchStrings_losesHead :
    TerminatedRun ⟨3, false, by decide, by decide⟩ afterWide 6 3 ∧
      (phpSearchStrings ⟨3, false, by decide, by decide⟩ (fun _ => false) afterWide).1 = false ∧
      (phpSearchStrings ⟨3, false, by decide, by decide⟩ (fun _ => false) afterWide).2.filter
        (coversRun 6 3) ≠ [runResult afterWide 6 3] := by
  refine ⟨⟨by decide, by decide, fun k hk => ?_, by decide⟩, by decide,
    by decide⟩
  obtain rfl : k = 5 := by omega
  decide

end SystemInformer.PhLib
