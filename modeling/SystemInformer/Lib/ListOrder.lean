import Mathlib

/-!
# The order of lists as a comparison

How two things stand to each other, as an `Ordering`, and how that of two lists comes from that of
their first elements and of what is behind them.
-/

namespace ListOrder

variable {β γ : Type*} [LinearOrder β] [LinearOrder γ]

/-- How two things of an order stand to each other. -/
def order (b b' : β) : Ordering := cmp b b'

theorem order_of_lt {b b' : β} (h : b < b') : order b b' = .lt := h.cmp_eq_lt

theorem order_of_gt {b b' : β} (h : b' < b) : order b b' = .gt := h.cmp_eq_gt

@[simp] theorem order_self (b : β) : order b b = .eq := cmp_self_eq_eq b

/-- Where the first parts decide unless they are the same, and then the second parts do. -/
theorem order_eq_then {δ : Type*} [LinearOrder δ] {b b' : β} {c c' : γ} {d d' : δ}
    (hlt : b < b' → d < d') (hgt : b' < b → d' < d)
    (hsnd : b = b' → (c < c' → d < d') ∧ (c' < c → d' < d) ∧ (c = c' → d = d')) :
    order d d' = (order b b').then (order c c') := by
  rcases lt_trichotomy b b' with h | h | h
  · rw [order_of_lt h, order_of_lt (hlt h)]
    rfl
  · obtain ⟨hclt, hcgt, hceq⟩ := hsnd h
    rw [h, order_self, Ordering.then]
    rcases lt_trichotomy c c' with h | h | h
    · rw [order_of_lt h, order_of_lt (hclt h)]
    · rw [h, hceq h, order_self, order_self]
    · rw [order_of_gt h, order_of_gt (hcgt h)]
  · rw [order_of_gt h, order_of_gt (hgt h)]
    rfl

theorem order_nil_cons (b : β) (l : List β) : order [] (b :: l) = .lt :=
  order_of_lt (List.nil_lt_cons b l)

theorem order_cons_nil (b : β) (l : List β) : order (b :: l) [] = .gt :=
  order_of_gt (List.nil_lt_cons b l)

theorem order_cons_cons (b b' : β) (l l' : List β) :
    order (b :: l) (b' :: l') = (order b b').then (order l l') := by
  refine order_eq_then (fun h => List.cons_lt_cons_iff.mpr (Or.inl h))
    (fun h => List.cons_lt_cons_iff.mpr (Or.inl h)) fun hb => ?_
  subst hb
  exact ⟨fun h => List.cons_lt_cons_iff.mpr (Or.inr ⟨rfl, h⟩),
    fun h => List.cons_lt_cons_iff.mpr (Or.inr ⟨rfl, h⟩), fun h => by rw [h]⟩

end ListOrder
