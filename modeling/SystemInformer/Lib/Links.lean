import Mathlib

/-!
# Singly linked lists that share their links

Every node has one link, and a list is what the links lead through from its head. The lists of
several holders are kept apart by saying of every node whose list it is on, if it is on one at
all: a link of a node that is on no list may be written, a node may be pushed to the front of a
list or popped off it, and a holder without a list may be given all of another's at once.
-/

namespace Links

variable {α ρ : Type*}

/-- The nodes that the links lead through. -/
inductive Chain (next : α → Option α) : Option α → List α → Prop where
  | nil : Chain next none []
  | cons {a : α} {l : List α} (rest : Chain next (next a) l) : Chain next (some a) (a :: l)

theorem Chain.congr {next next' : α → Option α} {head : Option α} {l : List α}
    (h : Chain next head l) (hnext : ∀ a ∈ l, next' a = next a) : Chain next' head l := by
  induction h with
  | nil => exact .nil
  | cons rest ih =>
      refine .cons ?_
      rw [hnext _ List.mem_cons_self]
      exact ih fun a ha => hnext a (List.mem_cons_of_mem _ ha)

/-- The last node leads on to another list. -/
theorem Chain.retarget {next' : α → Option α} {head : Option α} {xs ys : List α} {a : α}
    (h : Chain next head (xs ++ [a])) (hxs : ∀ b ∈ xs, next' b = next b)
    (hys : Chain next' (next' a) ys) : Chain next' head (xs ++ a :: ys) := by
  induction xs generalizing head with
  | nil =>
      cases h
      exact .cons hys
  | cons b xs ih =>
      rw [List.cons_append] at h
      cases h with
      | cons rest =>
          refine .cons ?_
          rw [hxs b List.mem_cons_self]
          exact ih rest fun c hc => hxs c (List.mem_cons_of_mem _ hc)

/-- The first node of one list is turned round and becomes the first of another. -/
theorem Chain.turn {next' : α → Option α} {back : Option α} {l acc : List α} {a : α}
    (h : Chain next (next a) l) (hacc : Chain next back acc) (hl : a ∉ l) (hback : a ∉ acc)
    (hnext : ∀ b, b ≠ a → next' b = next b) (ha : next' a = back) :
    Chain next' (next a) l ∧ Chain next' (some a) (a :: acc) := by
  refine ⟨h.congr fun b hb => hnext b fun heq => hl (heq ▸ hb), .cons ?_⟩
  rw [ha]
  exact hacc.congr fun b hb => hnext b fun heq => hback (heq ▸ hb)

/-- Nodes that lead to one another in their order, in front of a list. -/
theorem chain_range' {f : ℕ → α} {ys : List α} {n s : ℕ}
    (hstep : ∀ i, s ≤ i → i < s + n → next (f i) = some (f (i + 1)))
    (hys : Chain next (some (f (s + n))) ys) :
    Chain next (some (f s)) ((List.range' s n).map f ++ ys) := by
  induction n generalizing s with
  | zero => exact hys
  | succ n ih =>
      rw [List.range'_succ, List.map_cons, List.cons_append]
      refine .cons ?_
      rw [hstep s (Nat.le_refl s) (by omega)]
      refine ih (fun i hi hlt => hstep i (by omega) (by omega)) ?_
      rw [Nat.succ_add_eq_add_succ]
      exact hys

/-- A node is on the list that starts at a head. -/
def On (next : α → Option α) (head : Option α) (a : α) : Prop := ∃ l, Chain next head l ∧ a ∈ l

/-- Every holder has a list without repetitions, of the nodes that are with it. -/
def Lists (next : α → Option α) (head : ρ → Option α) (place : α → Option ρ) : Prop :=
  ∀ r, ∃ l, Chain next (head r) l ∧ l.Nodup ∧ ∀ a, a ∈ l ↔ place a = some r

section

variable {next next' : α → Option α} {head : ρ → Option α} {place : α → Option ρ} {a : α} {r k : ρ}

theorem lists_empty : Lists next (fun _ : ρ => none) (fun _ => none) := by
  intro r
  exact ⟨[], .nil, List.nodup_nil, fun a => by simp⟩

theorem Lists.on_iff (h : Lists next head place) : (On next (head r) a) ↔ place a = some r := by
  obtain ⟨l, hchain, -, hmem⟩ := h r
  constructor
  · rintro ⟨l', hchain', ha⟩
    have hsame : l' = l := by
      clear ha hmem
      generalize head r = start at hchain hchain'
      induction hchain generalizing l' with
      | nil =>
          cases hchain'
          rfl
      | cons rest ih =>
          cases hchain' with
          | cons rest' => rw [ih _ rest']
    rw [← hmem a, ← hsame]
    exact ha
  · intro hplace
    exact ⟨l, hchain, (hmem a).mpr hplace⟩

theorem Lists.place_head (h : Lists next head place) (hhead : head r = some a) :
    place a = some r := by
  obtain ⟨l, hchain, -, hmem⟩ := h r
  rw [hhead] at hchain
  cases hchain with
  | cons rest => exact (hmem a).mp List.mem_cons_self

/-- Only links of nodes on no list are written. -/
theorem Lists.rewrite (h : Lists next head place)
    (hnext : ∀ a, place a ≠ none → next' a = next a) : Lists next' head place := by
  intro r
  obtain ⟨l, hchain, hnodup, hmem⟩ := h r
  refine ⟨l, hchain.congr fun a ha => hnext a ?_, hnodup, hmem⟩
  rw [(hmem a).mp ha]
  simp

variable [DecidableEq ρ]

/-- All nodes of one list go to a holder that has none. -/
theorem Lists.handOver (h : Lists next head place) (hne : k ≠ r) (hnone : head k = none) :
    Lists next (Function.update (Function.update head r none) k (head r))
      (fun a => if place a = some r then some k else place a) := by
  have hnobody : ∀ a, place a ≠ some k := by
    intro a ha
    obtain ⟨l, hchain, -, hmem⟩ := h k
    rw [hnone] at hchain
    cases hchain
    exact absurd ((hmem a).mpr ha) List.not_mem_nil
  intro r'
  by_cases hk : r' = k
  · subst hk
    obtain ⟨l, hchain, hnodup, hmem⟩ := h r
    rw [Function.update_self]
    refine ⟨l, hchain, hnodup, fun a => ?_⟩
    rw [hmem a]
    by_cases hplace : place a = some r
    · simp [hplace]
    · simp [hplace, hnobody a]
  · rw [Function.update_of_ne hk]
    by_cases hr : r' = r
    · subst hr
      rw [Function.update_self]
      refine ⟨[], .nil, List.nodup_nil, fun a => ?_⟩
      by_cases hplace : place a = some r'
      · simp [hplace, hne]
      · simp [hplace]
    · rw [Function.update_of_ne hr]
      obtain ⟨l, hchain, hnodup, hmem⟩ := h r'
      refine ⟨l, hchain, hnodup, fun a => ?_⟩
      rw [hmem a]
      by_cases hplace : place a = some r
      · simp [hplace, Ne.symm hr, Ne.symm hk]
      · simp [hplace]

variable [DecidableEq α]

theorem Lists.push (h : Lists next head place) (hplace : place a = none)
    (hnext : next a = head r) :
    Lists next (Function.update head r (some a)) (Function.update place a (some r)) := by
  intro k
  obtain ⟨l, hchain, hnodup, hmem⟩ := h k
  have ha : a ∉ l := by
    rw [hmem a, hplace]
    simp
  by_cases hk : k = r
  · subst hk
    rw [Function.update_self]
    refine ⟨a :: l, .cons (hnext ▸ hchain), List.nodup_cons.mpr ⟨ha, hnodup⟩, fun b => ?_⟩
    by_cases hb : b = a
    · simp [hb]
    · rw [Function.update_of_ne hb, List.mem_cons, or_iff_right hb]
      exact hmem b
  · rw [Function.update_of_ne hk]
    refine ⟨l, hchain, hnodup, fun b => ?_⟩
    by_cases hb : b = a
    · subst hb
      simp [ha, Ne.symm hk]
    · rw [Function.update_of_ne hb]
      exact hmem b

theorem Lists.pop (h : Lists next head place) (hhead : head r = some a) :
    Lists next (Function.update head r (next a)) (Function.update place a none) := by
  have hplace := h.place_head hhead
  intro k
  obtain ⟨l, hchain, hnodup, hmem⟩ := h k
  by_cases hk : k = r
  · subst hk
    rw [hhead] at hchain
    cases hchain with
    | @cons _ l rest =>
        rw [List.nodup_cons] at hnodup
        rw [Function.update_self]
        refine ⟨l, rest, hnodup.2, fun b => ?_⟩
        by_cases hb : b = a
        · simp [hb, hnodup.1]
        · rw [Function.update_of_ne hb, ← hmem b, List.mem_cons, or_iff_right hb]
  · rw [Function.update_of_ne hk]
    refine ⟨l, hchain, hnodup, fun b => ?_⟩
    by_cases hb : b = a
    · subst hb
      rw [hmem b, hplace]
      simp [Ne.symm hk]
    · rw [Function.update_of_ne hb]
      exact hmem b

end

end Links
