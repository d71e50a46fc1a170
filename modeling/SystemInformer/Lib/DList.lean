import Mathlib

/-!
# Doubly linked lists

A list is threaded through its members by two functions, `next` and `prev`.
`Seg` is a piece of one: entered through the pointer `x` from the predecessor
`p`, it runs through the members in order and leaves through the pointer `y`
from the predecessor `q`. A whole list is a piece that enters from nowhere and
leaves to nowhere. A piece only reads the links of its own members, so inserting
and unlinking change two pieces at their ends and leave the rest alone.
-/

namespace DList

variable {ι : Type}

def Seg (next prev : ι → Option ι) :
    Option ι → Option ι → List ι → Option ι → Option ι → Prop
  | p, x, [], q, y => p = q ∧ x = y
  | p, x, a :: l, q, y => x = some a ∧ prev a = p ∧ Seg next prev (some a) (next a) l q y

def IsList (next prev : ι → Option ι) (head : Option ι) (l : List ι) : Prop :=
  ∃ q, Seg next prev none head l q none

variable {next prev next' prev' : ι → Option ι}

theorem Seg.append {p x r z q y : Option ι} {l₁ l₂ : List ι} (h₁ : Seg next prev p x l₁ r z)
    (h₂ : Seg next prev r z l₂ q y) : Seg next prev p x (l₁ ++ l₂) q y := by
  induction l₁ generalizing p x with
  | nil =>
      obtain ⟨rfl, rfl⟩ := h₁
      exact h₂
  | cons a l ih => exact ⟨h₁.1, h₁.2.1, ih h₁.2.2⟩

variable {p x q y : Option ι}

theorem Seg.split {l₁ l₂ : List ι}
    (h : Seg next prev p x (l₁ ++ l₂) q y) :
    ∃ r z, Seg next prev p x l₁ r z ∧ Seg next prev r z l₂ q y := by
  induction l₁ generalizing p x with
  | nil => exact ⟨p, x, ⟨rfl, rfl⟩, h⟩
  | cons a l ih =>
      obtain ⟨r, z, h₁, h₂⟩ := ih h.2.2
      exact ⟨r, z, ⟨h.1, h.2.1, h₁⟩, h₂⟩

variable {l : List ι}

theorem Seg.congr (h : Seg next prev p x l q y)
    (hnext : ∀ a ∈ l, next' a = next a) (hprev : ∀ a ∈ l, prev' a = prev a) :
    Seg next' prev' p x l q y := by
  induction l generalizing p x with
  | nil => exact h
  | cons a l ih =>
      refine ⟨h.1, (hprev a List.mem_cons_self).trans h.2.1, ?_⟩
      rw [hnext a List.mem_cons_self]
      exact ih h.2.2 (fun b hb => hnext b (List.mem_cons_of_mem a hb))
        fun b hb => hprev b (List.mem_cons_of_mem a hb)

/-- The same members entered from another predecessor. -/
theorem Seg.reenter {p p' x q y : Option ι} {a : ι}
    (h : Seg next prev p x (a :: l) q y) (hnext : ∀ b ∈ a :: l, next' b = next b)
    (hprev : ∀ b ∈ l, prev' b = prev b) (hprev' : prev' a = p') :
    Seg next' prev' p' x (a :: l) q y := by
  refine ⟨h.1, hprev', ?_⟩
  rw [hnext a List.mem_cons_self]
  exact h.2.2.congr (fun b hb => hnext b (List.mem_cons_of_mem a hb)) hprev

/-- The same members left through another pointer. -/
theorem Seg.releave {p x q y y' : Option ι} {a : ι}
    (h : Seg next prev p x (l ++ [a]) q y) (hnext : ∀ b ∈ l, next' b = next b)
    (hprev : ∀ b ∈ l ++ [a], prev' b = prev b) (hnext' : next' a = y') :
    Seg next' prev' p x (l ++ [a]) q y' := by
  obtain ⟨r, z, h₁, h₂⟩ := h.split
  refine (h₁.congr hnext fun b hb => hprev b (List.mem_append.mpr (Or.inl hb))).append ?_
  refine ⟨h₂.1, (hprev a (by simp)).trans h₂.2.1, h₂.2.2.1, hnext'⟩

/-- The members name their neighbours. -/
theorem Seg.last {a : ι}
    (h : Seg next prev p x (l ++ [a]) q y) : q = some a ∧ next a = y := by
  obtain ⟨r, z, -, h₂⟩ := h.split
  exact ⟨h₂.2.2.1.symm, h₂.2.2.2⟩

/-- The successor of a member is a member, or what the piece is left through. -/
theorem Seg.next_mem {i a : ι}
    (h : Seg next prev p x l q y) (hi : i ∈ l) (ha : next i = some a) : a ∈ l ∨ y = some a := by
  induction l generalizing p x with
  | nil => exact absurd hi List.not_mem_nil
  | cons b l ih =>
      obtain ⟨-, -, hl⟩ := h
      rcases List.mem_cons.mp hi with rfl | hi
      · cases l with
        | nil => exact Or.inr (hl.2.symm.trans ha)
        | cons c l =>
            have hc : some c = some a := hl.1.symm.trans ha
            injection hc with hc
            exact Or.inl (by simp [hc])
      · exact (ih hl hi).imp_left (List.mem_cons_of_mem b)

/-- The predecessor of a member is a member, or what the piece is entered from. -/
theorem Seg.prev_mem {i a : ι}
    (h : Seg next prev p x l q y) (hi : i ∈ l) (ha : prev i = some a) : a ∈ l ∨ p = some a := by
  induction l generalizing p x with
  | nil => exact absurd hi List.not_mem_nil
  | cons b l ih =>
      obtain ⟨-, hp, hl⟩ := h
      rcases List.mem_cons.mp hi with rfl | hi
      · exact Or.inr (hp.symm.trans ha)
      · rcases ih hl hi with hmem | hb
        · exact Or.inl (List.mem_cons_of_mem b hmem)
        · injection hb with hb
          exact Or.inl (by simp [hb])

/-! ## Whole lists -/

theorem isList_nil : IsList next prev none [] := ⟨none, rfl, rfl⟩

variable {head : Option ι}

theorem IsList.next_mem {i a : ι} (h : IsList next prev head l)
    (hi : i ∈ l) (ha : next i = some a) : a ∈ l := by
  obtain ⟨q, h⟩ := h
  exact (h.next_mem hi ha).resolve_right nofun

theorem IsList.prev_mem {i a : ι} (h : IsList next prev head l)
    (hi : i ∈ l) (ha : prev i = some a) : a ∈ l := by
  obtain ⟨q, h⟩ := h
  exact (h.prev_mem hi ha).resolve_right nofun

theorem IsList.congr (h : IsList next prev head l)
    (hnext : ∀ a ∈ l, next' a = next a) (hprev : ∀ a ∈ l, prev' a = prev a) :
    IsList next' prev' head l := by
  obtain ⟨q, h⟩ := h
  exact ⟨q, h.congr hnext hprev⟩

theorem IsList.head_eq (h : IsList next prev head l) :
    head = l.head? := by
  obtain ⟨q, h⟩ := h
  cases l with
  | nil => exact h.2
  | cons a l => exact h.1

/-- A member put in front of the list. -/
theorem IsList.insert {i : ι} (h : IsList next prev head l)
    (hi : i ∉ l) (hnodup : l.Nodup) (hnext : next' i = head)
    (hnext' : ∀ a ∈ l, next' a = next a) (hprev : prev' i = none)
    (hhead : ∀ a, head = some a → prev' a = some i)
    (hprev' : ∀ a ∈ l, head ≠ some a → prev' a = prev a) :
    IsList next' prev' (some i) (i :: l) := by
  obtain ⟨q, h⟩ := h
  cases l with
  | nil => exact ⟨some i, rfl, hprev, rfl, hnext.trans h.2⟩
  | cons a l =>
      obtain ⟨ha, hl⟩ := List.nodup_cons.mp hnodup
      refine ⟨q, rfl, hprev, ?_⟩
      rw [hnext]
      refine h.reenter hnext' (fun b hb => ?_) (hhead a h.1)
      refine hprev' b (List.mem_cons_of_mem a hb) fun heq => ?_
      rw [h.1] at heq
      injection heq with heq
      exact ha (heq ▸ hb)

/-- A member unlinked: its neighbours, or the head, are linked past it. -/
theorem IsList.remove {head head' : Option ι} {l₁ l₂ : List ι} {i : ι}
    (h : IsList next prev head (l₁ ++ i :: l₂)) (hnodup : (l₁ ++ i :: l₂).Nodup)
    (hhead : head' = if prev i = none then next i else head)
    (hflink : ∀ a, next i = some a → prev' a = prev i)
    (hblink : ∀ a, prev i = some a → next' a = next i)
    (hnext : ∀ a ∈ l₁ ++ l₂, prev i ≠ some a → next' a = next a)
    (hprev : ∀ a ∈ l₁ ++ l₂, next i ≠ some a → prev' a = prev a) :
    IsList next' prev' head' (l₁ ++ l₂) := by
  obtain ⟨q, h⟩ := h
  obtain ⟨r, z, h₁, rfl, hpi, h₂⟩ := h.split
  rw [List.nodup_append, List.nodup_cons] at hnodup
  obtain ⟨hn₁, ⟨hi₂, hn₂⟩, hdisj⟩ := hnodup
  -- The member's neighbours are in the two pieces.
  have hpred : ∀ c, prev i = some c → c ∈ l₁ := by
    intro c hc
    rcases List.eq_nil_or_concat' l₁ with rfl | ⟨l, a, rfl⟩
    · rw [hpi, ← h₁.1] at hc
      cases hc
    · rw [hpi, h₁.last.1] at hc
      injection hc with hc
      simp [hc]
  have hsucc : ∀ c, next i = some c → c ∈ l₂ := by
    intro c hc
    cases l₂ with
    | nil =>
        rw [h₂.2] at hc
        cases hc
    | cons b l₂ =>
        rw [h₂.1] at hc
        injection hc with hc
        simp [hc]
  have hleft : Seg next' prev' none head' l₁ (prev i) (next i) := by
    rcases List.eq_nil_or_concat' l₁ with rfl | ⟨l, a, rfl⟩
    · have hnone : prev i = none := hpi.trans h₁.1.symm
      rw [if_pos hnone] at hhead
      exact ⟨hnone.symm, hhead⟩
    · have ha : prev i = some a := hpi.trans h₁.last.1
      rw [if_neg (by rw [ha]; simp)] at hhead
      rw [hhead, hpi]
      refine h₁.releave (fun b hb => hnext b ?_ ?_) (fun b hb => hprev b ?_ ?_) (hblink a ha)
      · simp [hb]
      · rw [ha]
        intro heq
        injection heq with heq
        rw [List.nodup_append] at hn₁
        exact hn₁.2.2 b hb a (by simp) heq.symm
      · exact List.mem_append.mpr (Or.inl hb)
      · intro heq
        exact hdisj b hb b (List.mem_cons_of_mem i (hsucc b heq)) rfl
  have hright : ∃ q', Seg next' prev' (prev i) (next i) l₂ q' none := by
    cases l₂ with
    | nil => exact ⟨prev i, rfl, h₂.2⟩
    | cons b l₂ =>
        have hb : next i = some b := h₂.1
        refine ⟨q, h₂.reenter (fun c hc => hnext c ?_ ?_) (fun c hc => hprev c ?_ ?_)
          (hflink b hb)⟩
        · exact List.mem_append.mpr (Or.inr hc)
        · intro heq
          exact hdisj c (hpred c heq) c (List.mem_cons_of_mem i hc) rfl
        · exact List.mem_append.mpr (Or.inr (List.mem_cons_of_mem b hc))
        · rw [hb]
          intro heq
          injection heq with heq
          exact (List.nodup_cons.mp hn₂).1 (heq ▸ hc)
  obtain ⟨q', hright⟩ := hright
  exact ⟨q', hleft.append hright⟩

end DList
