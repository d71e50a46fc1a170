import Mathlib

/-!
# Things that are at one place

A relation between things and places says where things are, and a thing may be found at a
place by looking at that place. Things are placed when each is at exactly one. A step that
moves one thing keeps this if it leaves the places of the others alone.
-/

namespace Places

variable {α ρ : Type*}

/-- Everything is at exactly one place. -/
def Placed (isAt : α → ρ → Prop) : Prop := ∀ a, ∃ p, ∀ q, isAt a q ↔ q = p

variable {isAt isAt' : α → ρ → Prop} {a : α} {p q : ρ}

theorem Placed.eq (h : Placed isAt) (hp : isAt a p) (hq : isAt a q) : p = q := by
  obtain ⟨r, hr⟩ := h a
  rw [(hr p).mp hp, (hr q).mp hq]

theorem Placed.not (h : Placed isAt) (hp : isAt a p) (hne : q ≠ p) : ¬ isAt a q :=
  fun hq => hne (h.eq hq hp)

/-- Nothing moves. -/
theorem Placed.congr (h : Placed isAt) (hsame : ∀ a q, isAt' a q ↔ isAt a q) : Placed isAt' := by
  intro a
  obtain ⟨p, hp⟩ := h a
  exact ⟨p, fun q => (hsame a q).trans (hp q)⟩

/-- One thing moves. -/
theorem Placed.move (h : Placed isAt) (x : α) (p : ρ)
    (hother : ∀ a, a ≠ x → ∀ q, isAt' a q ↔ isAt a q) (hself : ∀ q, isAt' x q ↔ q = p) :
    Placed isAt' := by
  intro a
  by_cases hx : a = x
  · exact ⟨p, hx ▸ hself⟩
  · obtain ⟨r, hr⟩ := h a
    exact ⟨r, fun q => (hother a hx q).trans (hr q)⟩

end Places
