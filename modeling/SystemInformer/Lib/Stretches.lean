import Mathlib

/-!
# Stretches of one letter

A word is cut at the letters other than `b`: what is in front of each of them, and at the end, is
a stretch of `b`s. What a machine does that counts the `b`s is shown stretch by stretch.
-/

namespace Stretches

variable {α : Type*} {b c : α} {i m n : ℕ} {l s t : List α}

/-! ## Reading on -/

theorem drop_of_append (h : l.drop i = s ++ t) : l.drop (i + s.length) = t := by
  rw [← List.drop_drop, h, List.drop_left]

theorem drop_takeWhile (p : α → Bool) (l : List α) :
    l.drop (l.takeWhile p).length = l.dropWhile p := by
  have h := @List.drop_left _ (l.takeWhile p) (l.dropWhile p)
  rwa [List.takeWhile_append_dropWhile] at h

/-! ## Stretches -/

theorem exists_stretch (b : α) (s : List α) :
    (∃ n, s = List.replicate n b) ∨ ∃ n c t, c ≠ b ∧ s = List.replicate n b ++ c :: t := by
  induction s with
  | nil => exact .inl ⟨0, rfl⟩
  | cons a s ih =>
      by_cases ha : a = b
      · subst ha
        rcases ih with ⟨n, hn⟩ | ⟨n, c, t, hc, hs⟩
        · exact .inl ⟨n + 1, by rw [hn, List.replicate_succ]⟩
        · exact .inr ⟨n + 1, c, t, hc, by rw [hs, List.replicate_succ, List.cons_append]⟩
      · exact .inr ⟨0, a, s, ha, rfl⟩

theorem induction (b : α) {P : List α → Prop} (last : ∀ n, P (List.replicate n b))
    (next : ∀ n c t, c ≠ b → P t → P (List.replicate n b ++ c :: t)) (s : List α) : P s := by
  induction hs : s.length using Nat.strong_induction_on generalizing s with
  | _ k ih =>
      rcases exists_stretch b s with ⟨n, rfl⟩ | ⟨n, c, t, hc, rfl⟩
      · exact last n
      · refine next n c t hc (ih t.length ?_ t rfl)
        rw [← hs, List.length_append, List.length_cons]
        omega

theorem takeWhile_stretch [DecidableEq α] (hc : c ≠ b) (n : ℕ) (t : List α) :
    (List.replicate n b ++ c :: t).takeWhile (· == b) = List.replicate n b := by
  rw [List.takeWhile_append_of_pos fun a ha => by simp [List.eq_of_mem_replicate ha],
    List.takeWhile_cons_of_neg (by simp [hc]), List.append_nil]

theorem dropWhile_stretch [DecidableEq α] (hc : c ≠ b) (n : ℕ) (t : List α) :
    (List.replicate n b ++ c :: t).dropWhile (· == b) = c :: t := by
  rw [List.dropWhile_append_of_pos fun a ha => by simp [List.eq_of_mem_replicate ha],
    List.dropWhile_cons_of_neg (by simp [hc])]

theorem replicate_prefix_iff (hc : c ≠ b) :
    List.replicate m b <+: List.replicate n b ++ c :: t ↔ m ≤ n := by
  induction n generalizing m with
  | zero =>
      cases m with
      | zero => simp
      | succ m => simp [List.replicate_succ, hc.symm]
  | succ n ih =>
      cases m with
      | zero => simp
      | succ m =>
          rw [List.replicate_succ, List.replicate_succ, List.cons_append, List.cons_prefix_cons,
            ih]
          simp

/-- A stretch is found in front of a letter or behind it. -/
theorem replicate_infix_iff (hc : c ≠ b) :
    List.replicate m b <:+: List.replicate n b ++ c :: t ↔
      m ≤ n ∨ List.replicate m b <:+: t := by
  induction n with
  | zero =>
      rw [List.replicate_zero, List.nil_append, List.infix_cons_iff,
        ← replicate_prefix_iff (n := 0) (t := t) hc, List.replicate_zero, List.nil_append]
  | succ n ih =>
      rw [List.replicate_succ, List.cons_append, List.infix_cons_iff, ih, ← List.cons_append,
        ← List.replicate_succ, replicate_prefix_iff hc]
      constructor
      · rintro (h | h | h)
        · exact .inl h
        · exact .inl (h.trans n.le_succ)
        · exact .inr h
      · rintro (h | h)
        · exact .inl h
        · exact .inr (.inr h)

theorem getLast?_stretch (hc : c ≠ b) (s t : List α) :
    (s ++ c :: t).getLast? = some b ↔ t.getLast? = some b := by
  rw [List.getLast?_append, List.getLast?_cons]
  cases h : t.getLast? with
  | none => simp [hc]
  | some a => simp

/-- Without the last stretch. -/
theorem rdropWhile_stretch [DecidableEq α] (hc : c ≠ b) (s t : List α) :
    (s ++ c :: t).rdropWhile (· == b) = s ++ c :: t.rdropWhile (· == b) := by
  induction t using List.reverseRecOn with
  | nil => rw [List.rdropWhile_concat_neg _ _ _ (by simp [hc]), List.rdropWhile_nil]
  | append_singleton t a ih =>
      rw [← List.cons_append, ← List.append_assoc]
      by_cases ha : a = b
      · rw [List.rdropWhile_concat_pos _ _ _ (by simp [ha]),
          List.rdropWhile_concat_pos _ _ _ (by simp [ha]), ih]
      · rw [List.rdropWhile_concat_neg _ _ _ (by simp [ha]),
          List.rdropWhile_concat_neg _ _ _ (by simp [ha]), List.append_assoc, List.cons_append]

theorem rdropWhile_replicate [DecidableEq α] (n : ℕ) (b : α) :
    (List.replicate n b).rdropWhile (· == b) = [] :=
  List.rdropWhile_eq_nil_iff.mpr fun a ha => by simp [List.eq_of_mem_replicate ha]

theorem rdropWhile_eq_self [DecidableEq α] :
    s.rdropWhile (· == b) = s ↔ s.getLast? ≠ some b := by
  rw [List.rdropWhile_eq_self_iff]
  constructor
  · intro h hlast
    obtain ⟨t, rfl⟩ := List.getLast?_eq_some_iff.mp hlast
    exact h (by simp) (by simp)
  · intro h hs hb
    exact h ((List.getLast?_eq_getLast_of_ne_nil hs).trans (congrArg some (by simpa using hb)))

end Stretches
