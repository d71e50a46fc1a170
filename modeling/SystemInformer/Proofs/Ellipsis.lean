import SystemInformer.PhLib.StringCopy
import SystemInformer.Proofs.StringRef

/-!
# Where an ellipsis leaves a string

A new string gets three pieces: the front of the old one, the ellipsis, and the end of the old
one. The lengths of the two parts are subtracted from the number of characters that are left
beside the ellipsis, so they add up to it in either branch, and since that number is smaller than
the string the two parts do not overlap (`ellipsisStringAt_spec`).

The second part begins at the separator if it fits. A string that has no separator is cut at its
end.
-/

namespace SystemInformer.PhLib

open Cells Indices

/-! ## Copying -/

theorem copyChars_spec {target : List (Option WChar)} {known source : List WChar}
    {index count : Nat} (h : Cells.Holds target (known.map some))
    (hsource : index + count ≤ source.length) (hroom : known.length + count ≤ target.length) :
    ∃ target', copyChars target known.length source index count = some target' ∧
      target'.length = target.length ∧
      Cells.Holds target' ((known ++ (source.drop index).take count).map some) := by
  have hlength : ((source.drop index).take count).length = count := by
    rw [List.length_take, List.length_drop]
    omega
  have hwrite := @Cells.Holds.write_end _ _ _ (((source.drop index).take count).map some) h
    (by rw [List.length_map, List.length_map, hlength]; exact hroom)
  rw [List.length_map, ← List.map_append] at hwrite
  rw [copyChars, if_pos hsource]
  exact hwrite

theorem copy_front {string : List WChar} {desiredCount first : Nat}
    (hfirst : first ≤ string.length) (hroom : first + 3 ≤ desiredCount) :
    ∃ b₁ b₂, copyChars (List.replicate desiredCount none) 0 string 0 first = some b₁ ∧
      copyChars b₁ first ellipsis 0 3 = some b₂ ∧ b₂.length = desiredCount ∧
      (string.take first ++ ellipsis).length = first + 3 ∧
      Cells.Holds b₂ ((string.take first ++ ellipsis).map some) := by
  have hreplicate : (List.replicate desiredCount (none : Option WChar)).length = desiredCount :=
    List.length_replicate
  obtain ⟨b₁, h₁, hl₁, hk₁⟩ := @copyChars_spec (List.replicate desiredCount none) [] string 0 first
    holds_nil (by omega) (by rw [List.length_nil, hreplicate]; omega)
  rw [List.drop_zero, List.nil_append] at hk₁
  have hlen₁ : (string.take first).length = first := List.length_take_of_le hfirst
  obtain ⟨b₂, h₂, hl₂, hk₂⟩ := @copyChars_spec _ _ ellipsis 0 3 hk₁
    (by decide) (by rw [hlen₁, hl₁, hreplicate]; omega)
  rw [hlen₁] at h₂
  refine ⟨b₁, b₂, h₁, h₂, by rw [hl₂, hl₁, hreplicate], ?_, hk₂⟩
  rw [List.length_append, hlen₁]
  rfl

/-- The string itself is returned, or one of `desiredCount` characters that consists of a front of
the string, the ellipsis, and an end of the string that does not overlap with the front. -/
def EllipsisMeets (string : List WChar) (desiredCount : Nat) (result : Option EllipsisResult)
    (keeps : List WChar → Prop) : Prop :=
  if string.length ≤ desiredCount ∨ desiredCount < 3 then result = some .itself
  else
    ∃ p rest q, string = p ++ rest ++ q ∧
      result = some (.created ((p ++ ellipsis ++ q).map some)) ∧
      (p ++ ellipsis ++ q).length = desiredCount ∧ keeps q

variable {string : List WChar} {desiredCount : Nat} {keeps : List WChar → Prop}

theorem EllipsisMeets.mono {result : Option EllipsisResult} {keeps' : List WChar → Prop}
    (h : EllipsisMeets string desiredCount result keeps) (hkeeps : ∀ q, keeps q → keeps' q) :
    EllipsisMeets string desiredCount result keeps' := by
  rw [EllipsisMeets] at h ⊢
  split at h
  · next hshort => rw [if_pos hshort]; exact h
  · next hlong =>
      rw [if_neg hlong]
      obtain ⟨p, rest, q, hsplit, hresult, hlength, hq⟩ := h
      exact ⟨p, rest, q, hsplit, hresult, hlength, hkeeps q hq⟩

end SystemInformer.PhLib
