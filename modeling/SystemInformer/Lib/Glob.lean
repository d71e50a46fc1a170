import Mathlib

/-!
# Patterns with stars

A pattern is a list of tokens: a star for any text at all, a joker for one letter, and letters for
themselves, up to a relation between letters.

A matcher need only remember the last star that it has passed. Between two stars stands a plain
piece, which matches texts of its own length only. If the piece matches somewhere behind the first
star, then whatever else of the text the whole pattern may match, the next star can begin where the
piece ends for the first time: it may take in everything that follows
(`matches_star_plain_star`). And if the text ends with the piece, no later place for the piece is
left (`matches_star_plain_end`).
-/

namespace Glob

inductive Token (α : Type*) where
  | star
  | one
  | char (a : α)

variable {α : Type*}

/-- The texts of a pattern. -/
inductive Matches (same : α → α → Prop) : List (Token α) → List α → Prop where
  | nil : Matches same [] []
  | star {p : List (Token α)} {s : List α} (t : List α) (h : Matches same p s) :
      Matches same (.star :: p) (t ++ s)
  | one {p : List (Token α)} {s : List α} (a : α) (h : Matches same p s) :
      Matches same (.one :: p) (a :: s)
  | char {p : List (Token α)} {s : List α} {a b : α} (hsame : same a b) (h : Matches same p s) :
      Matches same (.char b :: p) (a :: s)

variable {same : α → α → Prop} {p q r : List (Token α)} {s t u : List α} {a b : α}

@[simp] theorem matches_nil : Matches same [] s ↔ s = [] := by
  constructor
  · intro h
    cases h with
    | nil => rfl
  · intro h
    rw [h]
    exact .nil

@[simp] theorem matches_one : Matches same (.one :: p) s ↔ ∃ a t, s = a :: t ∧ Matches same p t := by
  constructor
  · intro h
    cases h with
    | one a h => exact ⟨a, _, rfl, h⟩
  · intro h
    obtain ⟨a, t, rfl, h⟩ := h
    exact .one a h

@[simp] theorem matches_char :
    Matches same (.char b :: p) s ↔ ∃ a t, s = a :: t ∧ same a b ∧ Matches same p t := by
  constructor
  · intro h
    cases h with
    | char hsame h => exact ⟨_, _, rfl, hsame, h⟩
  · intro h
    obtain ⟨a, t, rfl, hsame, h⟩ := h
    exact .char hsame h

/-- A star leaves a part at the end of the text to the rest of the pattern. -/
theorem matches_star : Matches same (.star :: p) s ↔ ∃ t, t <:+ s ∧ Matches same p t := by
  constructor
  · intro h
    cases h with
    | star t h => exact ⟨_, List.suffix_append _ _, h⟩
  · intro h
    obtain ⟨t, ⟨u, rfl⟩, h⟩ := h
    exact .star u h

theorem matches_star_nil : Matches same (.star :: p) [] ↔ Matches same p [] := by
  simp [matches_star]

theorem matches_star_cons :
    Matches same (.star :: p) (a :: s) ↔ Matches same p (a :: s) ∨ Matches same (.star :: p) s := by
  rw [matches_star, matches_star]
  constructor
  · intro h
    obtain ⟨t, ht, h⟩ := h
    rcases List.suffix_cons_iff.mp ht with rfl | ht
    · exact .inl h
    · exact .inr ⟨t, ht, h⟩
  · intro h
    rcases h with h | ⟨t, ht, h⟩
    · exact ⟨_, List.suffix_rfl, h⟩
    · exact ⟨t, ht.trans (List.suffix_cons a s), h⟩

/-- What a pattern that begins with a star matches may stand behind any text. -/
theorem Matches.behind (h : Matches same (.star :: p) t) (hts : t <:+ s) :
    Matches same (.star :: p) s := by
  obtain ⟨u, hut, h⟩ := matches_star.mp h
  exact matches_star.mpr ⟨u, hut.trans hts, h⟩

theorem matches_star_star : Matches same (.star :: .star :: p) s ↔ Matches same (.star :: p) s := by
  rw [matches_star]
  constructor
  · intro h
    obtain ⟨t, ht, h⟩ := h
    exact h.behind ht
  · intro h
    exact ⟨s, List.suffix_rfl, h⟩

theorem matches_star_last : Matches same [.star] s :=
  matches_star.mpr ⟨[], List.nil_suffix, .nil⟩

/-! ## Plain pieces -/

def Plain (p : List (Token α)) : Prop := ∀ x ∈ p, x ≠ .star

/-- A plain piece takes in as many letters as it has tokens. -/
theorem matches_plain_append (hq : Plain q) :
    Matches same (q ++ p) s ↔
      ∃ t u, s = t ++ u ∧ t.length = q.length ∧ Matches same q t ∧ Matches same p u := by
  induction q generalizing s with
  | nil =>
      constructor
      · intro h
        exact ⟨[], s, rfl, rfl, .nil, h⟩
      · intro h
        obtain ⟨t, u, rfl, hlength, -, h⟩ := h
        rw [List.length_eq_zero_iff.mp hlength]
        exact h
  | cons x q ih =>
      have hrest : Plain q := fun y hy => hq y (List.mem_cons_of_mem _ hy)
      cases x with
      | star => exact absurd rfl (hq .star List.mem_cons_self)
      | one =>
          rw [List.cons_append, matches_one]
          constructor
          · intro h
            obtain ⟨a, s, rfl, h⟩ := h
            obtain ⟨t, u, rfl, hlength, ht, hu⟩ := (ih hrest).mp h
            exact ⟨a :: t, u, rfl, congrArg Nat.succ hlength, .one a ht, hu⟩
          · intro h
            obtain ⟨t, u, rfl, hlength, ht, hu⟩ := h
            obtain ⟨a, v, rfl, hv⟩ := matches_one.mp ht
            exact ⟨a, v ++ u, rfl, (ih hrest).mpr ⟨v, u, rfl, Nat.succ.inj hlength, hv, hu⟩⟩
      | char b =>
          rw [List.cons_append, matches_char]
          constructor
          · intro h
            obtain ⟨a, s, rfl, hsame, h⟩ := h
            obtain ⟨t, u, rfl, hlength, ht, hu⟩ := (ih hrest).mp h
            exact ⟨a :: t, u, rfl, congrArg Nat.succ hlength, .char hsame ht, hu⟩
          · intro h
            obtain ⟨t, u, rfl, hlength, ht, hu⟩ := h
            obtain ⟨a, v, rfl, hsame, hv⟩ := matches_char.mp ht
            exact ⟨a, v ++ u, rfl, hsame,
              (ih hrest).mpr ⟨v, u, rfl, Nat.succ.inj hlength, hv, hu⟩⟩

theorem matches_plain (hq : Plain q) (h : Matches same q t) : t.length = q.length := by
  rw [← List.append_nil q, matches_plain_append hq] at h
  obtain ⟨t', u, rfl, hlength, -, hu⟩ := h
  rw [matches_nil.mp hu, List.append_nil]
  exact hlength

/-- A plain piece that matches the beginning leaves the rest of the text to the rest of the
pattern. -/
theorem matches_plain_rest (hq : Plain q) (ht : Matches same q t) :
    Matches same (q ++ p) (t ++ s) ↔ Matches same p s := by
  rw [matches_plain_append hq]
  have hlength := matches_plain hq ht
  constructor
  · intro h
    obtain ⟨t', u, heq, hlength', -, hu⟩ := h
    obtain ⟨-, rfl⟩ := List.append_inj heq (hlength.trans hlength'.symm)
    exact hu
  · intro h
    exact ⟨t, s, rfl, hlength, ht, h⟩

/-- The next star may begin where the piece ends for the first time. -/
theorem matches_star_plain_star (hq : Plain q) (ht : Matches same q t) :
    Matches same (.star :: (q ++ .star :: p)) (t ++ s) ↔ Matches same (.star :: p) s := by
  constructor
  · intro h
    obtain ⟨v, hv, h⟩ := matches_star.mp h
    obtain ⟨t', u, rfl, hlength, -, hu⟩ := (matches_plain_append hq).mp h
    refine hu.behind ?_
    have hle := hv.length_le
    rw [List.length_append, List.length_append, hlength, matches_plain hq ht] at hle
    exact List.suffix_of_suffix_length_le ((List.suffix_append t' u).trans hv)
      (List.suffix_append t s) (Nat.add_le_add_iff_left.mp hle)
  · intro h
    exact matches_star.mpr ⟨_, List.suffix_rfl, (matches_plain_rest hq ht).mpr h⟩

/-- When the text ends with the piece, there is no later place for it. -/
theorem matches_star_plain_end (hq : Plain q) (ht : Matches same q t) :
    Matches same (.star :: (q ++ r)) t ↔ Matches same r [] := by
  constructor
  · intro h
    obtain ⟨v, hv, h⟩ := matches_star.mp h
    obtain ⟨t', u, rfl, hlength, -, hu⟩ := (matches_plain_append hq).mp h
    have hle := hv.length_le
    rw [List.length_append, hlength, matches_plain hq ht] at hle
    have hempty : u = [] := List.length_eq_zero_iff.mp (by omega)
    exact hempty ▸ hu
  · intro h
    have hwhole := (matches_plain_rest (s := []) hq ht).mpr h
    rw [List.append_nil] at hwhole
    exact matches_star.mpr ⟨t, List.suffix_rfl, hwhole⟩

end Glob
