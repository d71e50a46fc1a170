import Mathlib

/-!
# Values that are taken and given back

The history of a pool of values says which ones were taken from it and which ones were given
back. A value that was given back and not taken since is pending. If every pending value that is
taken is the oldest one, the values are taken again in the order in which they were given back.
-/

namespace Recycling

inductive Event (α : Type*) where
  | taken (a : α)
  | given (a : α)
  deriving DecidableEq

open Event

variable {α : Type*} {p : List α} {l : List (Event α)} {a b : α}

/-- Between the return of a value and its being taken again stands every value that was given back
before it. -/
def InOrder (l : List (Event α)) : Prop :=
  ∀ before between later rest a b,
    l = before ++ given a :: (between ++ given b :: (later ++ taken b :: rest)) →
      taken a ∈ between ++ later

theorem inOrder_nil : InOrder ([] : List (Event α)) := by
  intro before between later rest a b h
  exact absurd h.symm (by simp)

/-- The last event is one of the three, or they stand before it. -/
theorem split_last {before between later rest : List (Event α)} {e : Event α}
    (h : l ++ [e] = before ++ given a :: (between ++ given b :: (later ++ taken b :: rest))) :
    (e = taken b ∧ l = before ++ given a :: (between ++ given b :: later)) ∨
      ∃ rest', l = before ++ given a :: (between ++ given b :: (later ++ taken b :: rest')) := by
  rcases List.eq_nil_or_concat rest with rfl | ⟨rest', e', rfl⟩
  · have hsplit : l ++ [e] =
        (before ++ given a :: (between ++ given b :: later)) ++ [taken b] := by
      rw [h]
      simp
    obtain ⟨hl, he⟩ := List.append_inj' hsplit rfl
    exact .inl ⟨(List.cons.inj he).1, hl⟩
  · have hsplit : l ++ [e] =
        (before ++ given a :: (between ++ given b :: (later ++ taken b :: rest'))) ++ [e'] := by
      rw [h]
      simp
    exact .inr ⟨rest', (List.append_inj' hsplit rfl).1⟩

theorem InOrder.append_given (h : InOrder l) : InOrder (l ++ [given a]) := by
  intro before between later rest c b heq
  rcases split_last heq with ⟨he, -⟩ | ⟨rest', hl⟩
  · cases he
  · exact h _ _ _ _ _ _ hl

variable [DecidableEq α]

def pendingStep (p : List α) : Event α → List α
  | .taken a => p.erase a
  | .given a => p ++ [a]

/-- The values that were given back and not taken since, the oldest one first. -/
def pending (l : List (Event α)) : List α := l.foldl pendingStep []

theorem pending_append_taken : pending (l ++ [taken a]) = (pending l).erase a := by
  simp [pending, pendingStep]

theorem pending_append_given : pending (l ++ [given a]) = pending l ++ [a] := by
  simp [pending, pendingStep]

theorem mem_foldl_pendingStep (ha : a ∈ p) (hl : taken a ∉ l) : a ∈ l.foldl pendingStep p := by
  induction l generalizing p with
  | nil => exact ha
  | cons e l ih =>
      rw [List.mem_cons, not_or] at hl
      refine ih ?_ hl.2
      cases e with
      | taken c =>
          have hne : a ≠ c := fun heq => hl.1 (congrArg taken heq)
          exact (List.mem_erase_of_ne hne).mpr ha
      | given c => exact List.mem_append_left _ ha

/-- One value stays in front of another while neither of them is taken. -/
theorem ahead_foldl_pendingStep {xs ys : List α} (hp : p = xs ++ b :: ys) (ha : a ∈ xs)
    (hla : taken a ∉ l) (hlb : taken b ∉ l) :
    ∃ xs' ys', l.foldl pendingStep p = xs' ++ b :: ys' ∧ a ∈ xs' := by
  induction l generalizing p xs ys with
  | nil => exact ⟨xs, ys, hp, ha⟩
  | cons e l ih =>
      rw [List.mem_cons, not_or] at hla hlb
      cases e with
      | taken c =>
          have hac : a ≠ c := fun heq => hla.1 (congrArg taken heq)
          have hbc : b ≠ c := fun heq => hlb.1 (congrArg taken heq)
          by_cases hc : c ∈ xs
          · have hstep : pendingStep p (taken c) = xs.erase c ++ b :: ys := by
              rw [pendingStep, hp, List.erase_append_left _ hc]
            exact ih hstep ((List.mem_erase_of_ne hac).mpr ha) hla.2 hlb.2
          · have hstep : pendingStep p (taken c) = xs ++ b :: ys.erase c := by
              rw [pendingStep, hp, List.erase_append_right _ hc, List.erase_cons_tail (by simpa)]
            exact ih hstep ha hla.2 hlb.2
      | given c =>
          have hstep : pendingStep p (given c) = xs ++ b :: (ys ++ [c]) := by
            rw [pendingStep, hp, List.append_assoc, List.cons_append]
          exact ih hstep ha hla.2 hlb.2

/-- A value given back after another one is behind it. -/
theorem pending_ahead {before between later : List (Event α)} (hbetween : taken a ∉ between)
    (hlater : taken a ∉ later) (hb : taken b ∉ later) :
    ∃ xs ys, pending (before ++ given a :: (between ++ given b :: later)) = xs ++ b :: ys ∧
      a ∈ xs := by
  have hfirst : a ∈ between.foldl pendingStep (pending before ++ [a]) :=
    mem_foldl_pendingStep (List.mem_append_right _ List.mem_cons_self) hbetween
  rw [pending, List.foldl_append, List.foldl_cons, List.foldl_append, List.foldl_cons]
  exact ahead_foldl_pendingStep rfl hfirst hlater hb

/-- A pending value that is taken is the oldest one. -/
theorem InOrder.append_taken (h : InOrder l) (hnodup : (pending l).Nodup)
    (holdest : a ∈ pending l → ∃ rest, pending l = a :: rest) : InOrder (l ++ [taken a]) := by
  intro before between later rest c b heq
  rcases split_last heq with ⟨he, hl⟩ | ⟨rest', hl⟩
  · obtain rfl : a = b := Event.taken.inj he
    by_cases hbetween : taken c ∈ between
    · exact List.mem_append_left _ hbetween
    by_cases hlater : taken c ∈ later
    · exact List.mem_append_right _ hlater
    by_cases hagain : taken a ∈ later
    · -- It was taken in between, and the older one had been taken before.
      obtain ⟨later', after, rfl⟩ := List.append_of_mem hagain
      have hmem := h before between later' after c a hl
      rw [List.mem_append] at hmem ⊢
      exact hmem.imp_right fun hm => List.mem_append_left _ hm
    · have hahead : ∃ xs ys, pending (before ++ given c :: (between ++ given a :: later)) =
          xs ++ a :: ys ∧ c ∈ xs := pending_ahead hbetween hlater hagain
      rw [← hl] at hahead
      obtain ⟨xs, ys, hpending, hxs⟩ := hahead
      obtain ⟨tail, htail⟩ := holdest (by rw [hpending]; simp)
      cases xs with
      | nil => exact absurd hxs List.not_mem_nil
      | cons x xs =>
          rw [hpending, List.cons_append] at htail hnodup
          rw [(List.cons.inj htail).1] at hnodup
          exact absurd (List.mem_append_right xs List.mem_cons_self) (List.nodup_cons.mp hnodup).1
  · exact h _ _ _ _ _ _ hl

end Recycling
