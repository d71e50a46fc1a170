import Mathlib

/-!
# UTF-8 with surrogates, read greedily

A sequence of one to four bytes stands for a code point up to `0x10ffff`; surrogates have three
bytes like their neighbours. A byte string is read from the left: a sequence gives its code point,
a byte at which none starts is given on its own as `escape` says, and the reading ends in front of
the beginning of a sequence whose end is missing.

No sequence is the beginning of another one (`head_append`), so a reader may decide byte by byte:
what it has is a whole sequence, the beginning of one (`IsOpen`), or neither, and in the last case
the first byte is escaped however much of the rest has been looked at (`head_of_broken`).
-/

namespace Utf8

variable {a b c d : UInt8} {s rest : List UInt8} {n : Nat}

def IsTail (b : UInt8) : Prop := 0x80 ≤ b.toNat ∧ b.toNat < 0xc0

/-- The second byte of a sequence of three or four, behind the first. -/
def IsSecond (a b : UInt8) : Prop :=
  IsTail b ∧ (a.toNat = 0xe0 → 0xa0 ≤ b.toNat) ∧ (a.toNat = 0xf0 → 0x90 ≤ b.toNat) ∧
    (a.toNat = 0xf4 → b.toNat < 0x90)

def IsLead2 (a : UInt8) : Prop := 0xc2 ≤ a.toNat ∧ a.toNat < 0xe0

def IsLead3 (a : UInt8) : Prop := 0xe0 ≤ a.toNat ∧ a.toNat < 0xf0

def IsLead4 (a : UInt8) : Prop := 0xf0 ≤ a.toNat ∧ a.toNat < 0xf5

instance (b : UInt8) : Decidable (IsTail b) := inferInstanceAs (Decidable (_ ∧ _))

instance (a b : UInt8) : Decidable (IsSecond a b) := inferInstanceAs (Decidable (_ ∧ _))

instance (a : UInt8) : Decidable (IsLead2 a) := inferInstanceAs (Decidable (_ ∧ _))

instance (a : UInt8) : Decidable (IsLead3 a) := inferInstanceAs (Decidable (_ ∧ _))

instance (a : UInt8) : Decidable (IsLead4 a) := inferInstanceAs (Decidable (_ ∧ _))

def value : List UInt8 → Option Nat
  | [a] => if a.toNat < 0x80 then some a.toNat else none
  | [a, b] =>
      if IsLead2 a ∧ IsTail b then some ((a.toNat - 0xc0) * 2 ^ 6 + (b.toNat - 0x80)) else none
  | [a, b, c] =>
      if IsLead3 a ∧ IsSecond a b ∧ IsTail c then
        some ((a.toNat - 0xe0) * 2 ^ 12 + (b.toNat - 0x80) * 2 ^ 6 + (c.toNat - 0x80))
      else none
  | [a, b, c, d] =>
      if IsLead4 a ∧ IsSecond a b ∧ IsTail c ∧ IsTail d then
        some ((a.toNat - 0xf0) * 2 ^ 18 + (b.toNat - 0x80) * 2 ^ 12 + (c.toNat - 0x80) * 2 ^ 6 +
          (d.toNat - 0x80))
      else none
  | _ => none

/-- The bytes begin a sequence that has more. -/
def IsOpen : List UInt8 → Prop
  | [a] => IsLead2 a ∨ IsLead3 a ∨ IsLead4 a
  | [a, b] => (IsLead3 a ∨ IsLead4 a) ∧ IsSecond a b
  | [a, b, c] => IsLead4 a ∧ IsSecond a b ∧ IsTail c
  | _ => False

instance : ∀ s : List UInt8, Decidable (IsOpen s)
  | [] => inferInstanceAs (Decidable False)
  | [_] => inferInstanceAs (Decidable (_ ∨ _))
  | [_, _] => inferInstanceAs (Decidable (_ ∧ _))
  | [_, _, _] => inferInstanceAs (Decidable (_ ∧ _))
  | _ :: _ :: _ :: _ :: _ => inferInstanceAs (Decidable False)

/-- The sequence that a byte string starts with: its code point and its length. -/
def sequenceAt (s : List UInt8) : Option (Nat × Nat) :=
  [1, 2, 3, 4].findSome? fun k => (value (s.take k)).map (·, k)

/-- The code points of a byte string. -/
def greedy (escape : UInt8 → Nat) : List UInt8 → List Nat
  | [] => []
  | a :: s =>
      match sequenceAt (a :: s) with
      | some (n, k) => n :: greedy escape (s.drop (k - 1))
      | none => if IsOpen (a :: s) then [] else escape a :: greedy escape s
termination_by s => s.length
decreasing_by
  · rw [List.length_drop, List.length_cons]
    omega
  · exact Nat.lt_succ_self _

def encode (n : Nat) : List UInt8 :=
  if n < 0x80 then [UInt8.ofNat n]
  else if n < 0x800 then [UInt8.ofNat (0xc0 + n / 2 ^ 6), UInt8.ofNat (0x80 + n % 2 ^ 6)]
  else if n < 0x10000 then
    [UInt8.ofNat (0xe0 + n / 2 ^ 12), UInt8.ofNat (0x80 + n / 2 ^ 6 % 2 ^ 6),
      UInt8.ofNat (0x80 + n % 2 ^ 6)]
  else
    [UInt8.ofNat (0xf0 + n / 2 ^ 18), UInt8.ofNat (0x80 + n / 2 ^ 12 % 2 ^ 6),
      UInt8.ofNat (0x80 + n / 2 ^ 6 % 2 ^ 6), UInt8.ofNat (0x80 + n % 2 ^ 6)]

/-! ## What stands at the start -/

inductive Head where
  | sequence (n : Nat) (rest : List UInt8)
  | broken (a : UInt8) (rest : List UInt8)
  | ending
deriving DecidableEq

def head : List UInt8 → Head
  | [] => .ending
  | a :: s =>
      match sequenceAt (a :: s) with
      | some (n, k) => .sequence n (s.drop (k - 1))
      | none => if IsOpen (a :: s) then .ending else .broken a s

/-- Reading goes from head to head. -/
theorem greedy_eq (escape : UInt8 → Nat) (s : List UInt8) :
    greedy escape s =
      match head s with
      | .sequence n rest => n :: greedy escape rest
      | .broken a rest => escape a :: greedy escape rest
      | .ending => [] := by
  cases s with
  | nil => rw [greedy, head]
  | cons a s =>
      rw [greedy, head]
      cases sequenceAt (a :: s) with
      | some r => rfl
      | none =>
          dsimp only
          split <;> rfl

theorem IsLead2.disjoint (h : IsLead2 a) : ¬ a.toNat < 0x80 ∧ ¬ IsLead3 a ∧ ¬ IsLead4 a := by
  simp only [IsLead2, IsLead3, IsLead4] at *
  omega

theorem IsLead3.disjoint (h : IsLead3 a) : ¬ a.toNat < 0x80 ∧ ¬ IsLead2 a ∧ ¬ IsLead4 a := by
  simp only [IsLead2, IsLead3, IsLead4] at *
  omega

theorem IsLead4.disjoint (h : IsLead4 a) : ¬ a.toNat < 0x80 ∧ ¬ IsLead2 a ∧ ¬ IsLead3 a := by
  simp only [IsLead2, IsLead3, IsLead4] at *
  omega

/-- A whole sequence has one to four bytes. -/
theorem value_cases (h : value s = some n) :
    (∃ a, s = [a] ∧ a.toNat < 0x80) ∨ (∃ a b, s = [a, b] ∧ IsLead2 a ∧ IsTail b) ∨
      (∃ a b c, s = [a, b, c] ∧ IsLead3 a ∧ IsSecond a b ∧ IsTail c) ∨
      ∃ a b c d, s = [a, b, c, d] ∧ IsLead4 a ∧ IsSecond a b ∧ IsTail c ∧ IsTail d := by
  match s, h with
  | [a], h =>
      rw [value] at h
      split at h
      · next ha => exact .inl ⟨a, rfl, ha⟩
      · cases h
  | [a, b], h =>
      rw [value] at h
      split at h
      · next hab => exact .inr (.inl ⟨a, b, rfl, hab⟩)
      · cases h
  | [a, b, c], h =>
      rw [value] at h
      split at h
      · next habc => exact .inr (.inr (.inl ⟨a, b, c, rfl, habc⟩))
      · cases h
  | [a, b, c, d], h =>
      rw [value] at h
      split at h
      · next habcd => exact .inr (.inr (.inr ⟨a, b, c, d, rfl, habcd⟩))
      · cases h

theorem sequenceAt_cons (a : UInt8) (s : List UInt8) :
    sequenceAt (a :: s) =
      (((value [a]).map (·, 1)).or <| ((value (a :: s.take 1)).map (·, 2)).or <|
        ((value (a :: s.take 2)).map (·, 3)).or <| (value (a :: s.take 3)).map (·, 4)) := by
  rw [sequenceAt, List.findSome?_cons, List.findSome?_cons, List.findSome?_cons,
    List.findSome?_cons]
  rw [List.take_succ_cons, List.take_succ_cons, List.take_succ_cons, List.take_succ_cons,
    List.take_zero]
  cases value [a] <;> cases value (a :: s.take 1) <;> cases value (a :: s.take 2) <;>
    cases value (a :: s.take 3) <;> rfl

theorem value_singleton_of_not (h : ¬ a.toNat < 0x80) : value [a] = none := if_neg h

theorem value_pair_of_not (h : ¬ (IsLead2 a ∧ IsTail b)) : value [a, b] = none := if_neg h

theorem value_triple_of_not (h : ¬ (IsLead3 a ∧ IsSecond a b ∧ IsTail c)) :
    value [a, b, c] = none := if_neg h

/-- The sequence at the start is the only one there. -/
theorem head_append (h : value s = some n) (rest : List UInt8) :
    head (s ++ rest) = .sequence n rest := by
  obtain ⟨a, rfl, ha⟩ | ⟨a, b, rfl, ha, hb⟩ | ⟨a, b, c, rfl, ha, hb, hc⟩ |
    ⟨a, b, c, d, rfl, ha, hb, hc, hd⟩ := value_cases h
  · rw [List.singleton_append, head, sequenceAt_cons, h]
    rfl
  · rw [List.cons_append, List.singleton_append, head, sequenceAt_cons,
      value_singleton_of_not ha.disjoint.1]
    show (match Option.or _ (((value [a, b]).map (·, 2)).or _) with
      | some (n, k) => _
      | none => _) = _
    rw [h]
    rfl
  · rw [List.cons_append, List.cons_append, List.singleton_append, head, sequenceAt_cons,
      value_singleton_of_not ha.disjoint.1]
    show (match Option.or _ (((value [a, b]).map (·, 2)).or
      (((value [a, b, c]).map (·, 3)).or _)) with
      | some (n, k) => _
      | none => _) = _
    rw [value_pair_of_not fun hab => ha.disjoint.2.1 hab.1, h]
    rfl
  · rw [List.cons_append, List.cons_append, List.cons_append, List.singleton_append, head,
      sequenceAt_cons, value_singleton_of_not ha.disjoint.1]
    show (match Option.or _ (((value [a, b]).map (·, 2)).or
      (((value [a, b, c]).map (·, 3)).or ((value [a, b, c, d]).map (·, 4)))) with
      | some (n, k) => _
      | none => _) = _
    rw [value_pair_of_not fun hab => ha.disjoint.2.1 hab.1,
      value_triple_of_not fun habc => ha.disjoint.2.2 habc.1, h]
    rfl

/-! ## The beginning of a sequence -/

theorem IsOpen.of_append {p q : List UInt8} (h : IsOpen (p ++ q)) (hp : p ≠ []) : IsOpen p := by
  match p, q, h, hp with
  | p, [], h, _ => rwa [List.append_nil] at h
  | [a], [b], h, _ => exact .inr h.1
  | [a], [b, c], h, _ => exact .inr (.inr h.1)
  | [a, b], [c], h, _ => exact ⟨.inr h.1, h.2.1⟩
  | [_], _ :: _ :: _ :: _, h, _ => exact h.elim
  | [_, _], _ :: _ :: _, h, _ => exact h.elim
  | _ :: _ :: _ :: p, _ :: _, h, _ => exact (by cases p <;> exact h.elim)

theorem IsOpen.length_le (h : IsOpen s) : s.length ≤ 3 := by
  match s, h with
  | [_], _ => exact Nat.le_add_left 1 2
  | [_, _], _ => exact Nat.le_add_left 2 1
  | [_, _, _], _ => exact Nat.le_refl 3

theorem isOpen_of_value {p q : List UInt8} (h : value (p ++ q) = some n) (hp : p ≠ [])
    (hq : q ≠ []) : IsOpen p := by
  obtain ⟨y, q, rfl⟩ := List.exists_cons_of_ne_nil hq
  match p, hp with
  | [x], _ =>
      obtain ⟨a, hs, ha⟩ | ⟨a, b, hs, ha, hb⟩ | ⟨a, b, c, hs, ha, hb, hc⟩ |
        ⟨a, b, c, d, hs, ha, hb, hc, hd⟩ := value_cases h
      · cases hs
      · cases hs
        exact .inl ha
      · cases hs
        exact .inr (.inl ha)
      · cases hs
        exact .inr (.inr ha)
  | [x, z], _ =>
      obtain ⟨a, hs, ha⟩ | ⟨a, b, hs, ha, hb⟩ | ⟨a, b, c, hs, ha, hb, hc⟩ |
        ⟨a, b, c, d, hs, ha, hb, hc, hd⟩ := value_cases h
      · cases hs
      · cases hs
      · cases hs
        exact ⟨.inl ha, hb⟩
      · cases hs
        exact ⟨.inr ha, hb⟩
  | [x, z, w], _ =>
      obtain ⟨a, hs, ha⟩ | ⟨a, b, hs, ha, hb⟩ | ⟨a, b, c, hs, ha, hb, hc⟩ |
        ⟨a, b, c, d, hs, ha, hb, hc, hd⟩ := value_cases h
      · cases hs
      · cases hs
      · cases hs
      · cases hs
        exact ⟨ha, hb, hc⟩
  | x :: z :: w :: v :: p, _ =>
      have hlong : value (x :: z :: w :: v :: (p ++ y :: q)) = none := by
        cases p <;> rfl
      exact absurd (h.symm.trans hlong) (Option.some_ne_none _)

theorem not_isOpen_of_value (h : value s = some n) : ¬ IsOpen s := by
  obtain ⟨a, rfl, ha⟩ | ⟨a, b, rfl, ha, hb⟩ | ⟨a, b, c, rfl, ha, hb, hc⟩ |
    ⟨a, b, c, d, rfl, ha, hb, hc, hd⟩ := value_cases h
  · rintro (h2 | h3 | h4)
    · exact h2.disjoint.1 ha
    · exact h3.disjoint.1 ha
    · exact h4.disjoint.1 ha
  · rintro ⟨h3 | h4, -⟩
    · exact ha.disjoint.2.1 h3
    · exact ha.disjoint.2.2 h4
  · exact fun hopen => ha.disjoint.2.2 hopen.1
  · exact id

theorem sequenceAt_some {s : List UInt8} {k : Nat} (h : sequenceAt s = some (n, k)) :
    value (s.take k) = some n := by
  obtain ⟨j, -, hj⟩ := List.exists_of_findSome?_eq_some h
  obtain ⟨m, hm, heq⟩ := Option.map_eq_some_iff.mp hj
  cases heq
  exact hm

theorem sequenceAt_isSome (h : value s = some n) (rest : List UInt8) :
    sequenceAt (s ++ rest) ≠ none := by
  intro hnone
  have hhead := head_append h rest
  cases hl : s ++ rest with
  | nil =>
      rw [hl] at hhead
      cases hhead
  | cons a l =>
      rw [hl, head, ← hl, hnone] at hhead
      dsimp only at hhead
      split at hhead <;> cases hhead

theorem head_of_open (h : IsOpen s) : head s = .ending := by
  cases s with
  | nil => rfl
  | cons a s =>
      rw [head]
      cases hat : sequenceAt (a :: s) with
      | none =>
          dsimp only
          rw [if_pos h]
      | some r =>
          have hvalue := sequenceAt_some hat
          rw [← List.take_append_drop r.2 (a :: s)] at h
          refine absurd (h.of_append fun hnil => ?_) (not_isOpen_of_value hvalue)
          rw [hnil] at hvalue
          cases hvalue

theorem sequenceAt_none_iff : sequenceAt s = none ↔ ∀ p q, s = p ++ q → value p = none := by
  constructor
  · rintro hnone p q rfl
    by_contra hne
    obtain ⟨n, hn⟩ := Option.ne_none_iff_exists'.mp hne
    exact sequenceAt_isSome hn q hnone
  · intro h
    by_contra hne
    obtain ⟨⟨n, k⟩, hat⟩ := Option.ne_none_iff_exists'.mp hne
    have hvalue := sequenceAt_some hat
    rw [h _ _ (List.take_append_drop k s).symm] at hvalue
    cases hvalue

theorem head_eq_broken_iff {t : List UInt8} : head s = .broken a t ↔
    s = a :: t ∧ (∀ p q, s = p ++ q → value p = none) ∧ ¬ IsOpen s := by
  cases s with
  | nil => exact iff_of_false Head.noConfusion fun h => List.cons_ne_nil _ _ h.1.symm
  | cons b s =>
      rw [head, ← sequenceAt_none_iff]
      cases sequenceAt (b :: s) with
      | some r => exact iff_of_false Head.noConfusion fun h => absurd h.2.1 (Option.some_ne_none _)
      | none =>
          dsimp only
          split
          · next hopen => exact iff_of_false Head.noConfusion fun h => h.2.2 hopen
          · next hopen =>
              rw [Head.broken.injEq, List.cons.injEq]
              exact ⟨fun h => ⟨h, rfl, hopen⟩, fun h => h.1⟩

theorem head_sequence_cases {t : List UInt8} (h : head s = .sequence n t) :
    ∃ p, value p = some n ∧ s = p ++ t := by
  cases s with
  | nil => cases h
  | cons b s =>
      rw [head] at h
      cases hat : sequenceAt (b :: s) with
      | some r =>
          rw [hat] at h
          cases h
          obtain ⟨m, k⟩ := r
          have hvalue := sequenceAt_some hat
          cases k with
          | zero => cases hvalue
          | succ k => exact ⟨_, hvalue, (List.take_append_drop (k + 1) (b :: s)).symm⟩
      | none =>
          rw [hat] at h
          dsimp only at h
          split at h <;> cases h

/-- What stands behind does not change where a sequence ends. -/
theorem head_sequence_append {t : List UInt8} (h : head s = .sequence n t) (u : List UInt8) :
    head (s ++ u) = .sequence n (t ++ u) := by
  obtain ⟨p, hp, rfl⟩ := head_sequence_cases h
  rw [List.append_assoc]
  exact head_append hp _

theorem head_broken_append {t : List UInt8} (h : head s = .broken a t) (u : List UInt8) :
    head (s ++ u) = .broken a (t ++ u) := by
  obtain ⟨hs, hnone, hopen⟩ := head_eq_broken_iff.mp h
  have hne : s ≠ [] := by
    rw [hs]
    exact List.cons_ne_nil _ _
  refine head_eq_broken_iff.mpr ⟨by rw [hs, List.cons_append], ?_, fun h => hopen (h.of_append hne)⟩
  intro p q hsplit
  rcases List.append_eq_append_iff.mp hsplit with ⟨m, rfl, hu⟩ | ⟨m, rfl, hq⟩
  · by_cases hm : m = []
    · rw [hm, List.append_nil]
      exact hnone s [] (List.append_nil s).symm
    · by_contra hvalue
      obtain ⟨n, hn⟩ := Option.ne_none_iff_exists'.mp hvalue
      exact hopen (isOpen_of_value hn hne hm)
  · exact hnone p m rfl

/-- What neither begins nor is a sequence is escaped. -/
theorem head_of_broken {held t : List UInt8} (hheld : held = [] ∨ IsOpen held)
    (hvalue : value (held ++ [c]) = none) (hopen : ¬ IsOpen (held ++ [c]))
    (hl : held ++ [c] = a :: t) : head (held ++ [c]) = .broken a t := by
  refine head_eq_broken_iff.mpr ⟨hl, fun p q hsplit => ?_, hopen⟩
  rcases List.append_eq_append_iff.mp hsplit with ⟨m, rfl, hm⟩ | ⟨m, rfl, hq⟩
  · cases m with
    | nil =>
        rw [List.append_nil]
        by_contra hne
        obtain ⟨n, hn⟩ := Option.ne_none_iff_exists'.mp hne
        rcases hheld with rfl | hheld
        · cases hn
        · exact not_isOpen_of_value hn hheld
    | cons b m =>
        obtain ⟨rfl, hnil⟩ := List.cons.inj hm
        rw [(List.append_eq_nil_iff.mp hnil.symm).1]
        exact hvalue
  · by_contra hne
    obtain ⟨n, hn⟩ := Option.ne_none_iff_exists'.mp hne
    have hp : p ≠ [] := by
      rintro rfl
      cases hn
    have hheld' : IsOpen (p ++ m) := hheld.resolve_left fun h => hp (List.append_eq_nil_iff.mp h).1
    exact not_isOpen_of_value hn (hheld'.of_append hp)

/-- A sequence stands for a code point. -/
theorem value_le (h : value s = some n) : n ≤ 0x10ffff := by
  obtain ⟨a, rfl, ha⟩ | ⟨a, b, rfl, ha, hb⟩ | ⟨a, b, c, rfl, ha, hb, hc⟩ |
    ⟨a, b, c, d, rfl, ha, hb, hc, hd⟩ := value_cases h
  · rw [value, if_pos ha, Option.some.injEq] at h
    omega
  · rw [value, if_pos ⟨ha, hb⟩, Option.some.injEq] at h
    simp only [IsLead2, IsTail] at ha hb
    omega
  · rw [value, if_pos ⟨ha, hb, hc⟩, Option.some.injEq] at h
    simp only [IsLead3, IsSecond, IsTail] at ha hb hc
    omega
  · rw [value, if_pos ⟨ha, hb, hc, hd⟩, Option.some.injEq] at h
    simp only [IsLead4, IsSecond, IsTail] at ha hb hc hd
    omega

/-- What is read stays below a bound that the escaped bytes have. -/
theorem greedy_le {escape : UInt8 → Nat} (hescape : ∀ b, escape b ≤ 0x10ffff) (s : List UInt8) :
    ∀ n ∈ greedy escape s, n ≤ 0x10ffff := by
  induction hlength : s.length using Nat.strong_induction_on generalizing s with
  | _ length ih =>
      subst hlength
      rw [greedy_eq]
      cases hhead : head s with
      | sequence n t =>
          obtain ⟨p, hp, rfl⟩ := head_sequence_cases hhead
          have hpos : 0 < p.length := List.length_pos_of_ne_nil fun h => by rw [h] at hp; cases hp
          intro m hm
          rcases List.mem_cons.mp hm with rfl | hm
          · exact value_le hp
          · exact ih t.length (by rw [List.length_append]; omega) t rfl m hm
      | broken a t =>
          obtain ⟨rfl, -⟩ := head_eq_broken_iff.mp hhead
          intro m hm
          rcases List.mem_cons.mp hm with rfl | hm
          · exact hescape a
          · exact ih t.length (Nat.lt_succ_self _) t rfl m hm
      | ending => exact fun m hm => absurd hm List.not_mem_nil

/-! ## Encoding -/

theorem toNat_ofNat (h : n < 256) : (UInt8.ofNat n).toNat = n := by
  rw [UInt8.toNat_ofNat']
  exact Nat.mod_eq_of_lt h

theorem value_encode (h : n ≤ 0x10ffff) : value (encode n) = some n := by
  have htail : ∀ m, m % 2 ^ 6 < 64 := fun m => Nat.mod_lt _ (by decide)
  have h1 := htail n
  have h2 := htail (n / 2 ^ 6)
  have h3 := htail (n / 2 ^ 12)
  have hbyte1 := toNat_ofNat (n := 0x80 + n % 2 ^ 6) (by omega)
  have hbyte2 := toNat_ofNat (n := 0x80 + n / 2 ^ 6 % 2 ^ 6) (by omega)
  have hbyte3 := toNat_ofNat (n := 0x80 + n / 2 ^ 12 % 2 ^ 6) (by omega)
  rw [encode]
  split
  · next hone =>
      have hbyte := toNat_ofNat (n := n) (by omega)
      rw [value, hbyte, if_pos hone]
  split
  · next hone htwo =>
      have hlead := toNat_ofNat (n := 0xc0 + n / 2 ^ 6) (by omega)
      rw [value, if_pos, hlead, hbyte1]
      · refine congrArg some ?_
        omega
      · simp only [IsLead2, IsTail, hlead, hbyte1]
        omega
  split
  · next hone htwo hthree =>
      have hlead := toNat_ofNat (n := 0xe0 + n / 2 ^ 12) (by omega)
      rw [value, if_pos, hlead, hbyte1, hbyte2]
      · refine congrArg some ?_
        omega
      · simp only [IsLead3, IsSecond, IsTail, hlead, hbyte1, hbyte2]
        omega
  · next hone htwo hthree =>
      have hlead := toNat_ofNat (n := 0xf0 + n / 2 ^ 18) (by omega)
      rw [value, if_pos, hlead, hbyte1, hbyte2, hbyte3]
      · refine congrArg some ?_
        omega
      · simp only [IsLead4, IsSecond, IsTail, hlead, hbyte1, hbyte2, hbyte3]
        omega

/-- Reading gives back what was encoded. -/
theorem greedy_encode (escape : UInt8 → Nat) {ns : List Nat} (h : ∀ n ∈ ns, n ≤ 0x10ffff) :
    greedy escape (ns.flatMap encode) = ns := by
  induction ns with
  | nil => rw [List.flatMap_nil, greedy]
  | cons n ns ih =>
      rw [List.flatMap_cons, greedy_eq,
        head_append (value_encode (h n List.mem_cons_self)) (ns.flatMap encode)]
      exact congrArg _ (ih fun m hm => h m (List.mem_cons_of_mem _ hm))

end Utf8
