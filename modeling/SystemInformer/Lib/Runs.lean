import Mathlib

/-!
# Runs of a labelled step relation

A run is a list of labels together with the states it leads through. What a step keeps, a
run keeps; and what one kind of step establishes and no other kind takes away holds from
the first on.
-/

namespace Runs

variable {σ α : Type*}

inductive Run (step : σ → α → σ → Prop) : σ → List α → σ → Prop where
  | nil (s : σ) : Run step s [] s
  | cons {s s' s'' : σ} {a : α} {l : List α} :
      step s a s' → Run step s' l s'' → Run step s (a :: l) s''

variable {step : σ → α → σ → Prop} {s s' s'' : σ} {a : α} {l l₁ l₂ : List α}

/-- What every step keeps. -/
theorem Run.inv {P : σ → Prop} (hstep : ∀ s a s', P s → step s a s' → P s')
    (h : Run step s l s') : P s → P s' := by
  induction h with
  | nil s => exact id
  | cons ha _ ih => exact fun hs => ih (hstep _ _ _ hs ha)

/-- What every step keeps as long as a condition on the labels lasts. -/
theorem Run.inv_while {P : σ → Prop} {ok : α → Prop}
    (hstep : ∀ s a s', P s → ok a → step s a s' → P s') (h : Run step s l s')
    (hl : ∀ a ∈ l, ok a) : P s → P s' := by
  induction h with
  | nil s => exact id
  | cons ha _ ih =>
      intro hs
      exact ih (fun b hb => hl b (List.mem_cons_of_mem _ hb))
        (hstep _ _ _ hs (hl _ List.mem_cons_self) ha)

theorem Run.split (h : Run step s (l₁ ++ l₂) s'') :
    ∃ s', Run step s l₁ s' ∧ Run step s' l₂ s'' := by
  induction l₁ generalizing s with
  | nil => exact ⟨s, .nil s, h⟩
  | cons a l₁ ih =>
      cases h with
      | cons ha hl =>
          obtain ⟨s', h₁, h₂⟩ := ih hl
          exact ⟨s', .cons ha h₁, h₂⟩

theorem Run.head (h : Run step s (a :: l) s'') : ∃ s', step s a s' ∧ Run step s' l s'' := by
  cases h with
  | cons ha hl => exact ⟨_, ha, hl⟩

/-- Going on by one kind of step, as long as it may be taken. -/
theorem iterate_run_of {R : σ → σ → Prop} {f : σ → σ} {n : Nat} {s : σ}
    (h : ∀ k < n, R (f^[k] s) (f (f^[k] s))) : Relation.ReflTransGen R s (f^[n] s) := by
  induction n with
  | zero => exact .refl
  | succ n ih =>
      rw [Function.iterate_succ_apply']
      exact .tail (ih fun k hk => h k (hk.trans (Nat.lt_succ_self n))) (h n (Nat.lt_succ_self n))

theorem iterate_run {R : σ → σ → Prop} {f : σ → σ} (h : ∀ s, R s (f s)) (n : Nat) (s : σ) :
    Relation.ReflTransGen R s (f^[n] s) := iterate_run_of fun _ _ => h _

section

variable {η : Type*} {perform : σ → α → Option σ} {step : η → α → η} {Inv : σ → η → Prop}
  {ok : α → Prop} {Good : σ → α → Prop} {h : η}

/-- A machine that may stop simulates another one as long as it goes on. -/
theorem foldlM_simulates
    (hstep : ∀ s h a s', Inv s h → ok a → perform s a = some s' → Inv s' (step h a))
    (hinv : Inv s h) (hl : ∀ a ∈ l, ok a) (hrun : l.foldlM perform s = some s') :
    Inv s' (l.foldl step h) := by
  induction l generalizing s h with
  | nil =>
      cases hrun
      exact hinv
  | cons a l ih =>
      rw [List.foldlM_cons] at hrun
      obtain ⟨s₁, hs₁, hrest⟩ := Option.bind_eq_some_iff.mp hrun
      exact ih (hstep s h a s₁ hinv (hl a List.mem_cons_self) hs₁)
        (fun b hb => hl b (List.mem_cons_of_mem _ hb)) hrest

/-- When it stops exactly at the bad steps, it goes through a run exactly when every step of the
run is good in the state before it. -/
theorem foldlM_isSome_iff
    (hgood : ∀ s h a, Inv s h → ok a → Good s a →
      ∃ s', perform s a = some s' ∧ Inv s' (step h a))
    (hbad : ∀ s h a, Inv s h → ok a → ¬ Good s a → perform s a = none)
    (hinv : Inv s h) (hl : ∀ a ∈ l, ok a) :
    (l.foldlM perform s).isSome = true ↔
      ∀ before a after, l = before ++ a :: after →
        ∀ s', before.foldlM perform s = some s' → Good s' a := by
  induction l generalizing s h with
  | nil =>
      refine iff_of_true rfl fun before a after hsplit => ?_
      exact absurd hsplit.symm (List.append_ne_nil_of_right_ne_nil _ (List.cons_ne_nil _ _))
  | cons a l ih =>
      have ha := hl a List.mem_cons_self
      by_cases hgo : Good s a
      · obtain ⟨s₁, hs₁, hinv₁⟩ := hgood s h a hinv ha hgo
        have hrun : ∀ l : List α, (a :: l).foldlM perform s = l.foldlM perform s₁ := by
          intro l
          rw [List.foldlM_cons, hs₁]
          rfl
        rw [hrun, ih hinv₁ fun b hb => hl b (List.mem_cons_of_mem _ hb)]
        constructor
        · intro hrest before b after hsplit s' hs'
          cases before with
          | nil =>
              cases hsplit
              cases hs'
              exact hgo
          | cons c before =>
              rw [List.cons_append, List.cons.injEq] at hsplit
              obtain ⟨rfl, rfl⟩ := hsplit
              exact hrest before b after rfl s' ((hrun before).symm.trans hs')
        · intro hall before b after hsplit s' hs'
          exact hall (a :: before) b after (congrArg (a :: ·) hsplit) s' ((hrun before).trans hs')
      · have hstop : (a :: l).foldlM perform s = none := by
          rw [List.foldlM_cons, hbad s h a hinv ha hgo]
          rfl
        refine iff_of_false ?_ fun hall => hgo (hall [] a l rfl s rfl)
        rw [hstop]
        exact Bool.false_ne_true

end

end Runs
