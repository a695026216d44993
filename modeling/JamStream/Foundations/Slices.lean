import Mathlib

/-! A list cut into slices of at most one size, and what a pass over the slices keeps. -/

namespace JamStream.Foundations
variable {α σ : Type*}

/-- The list in slices of `size`, the last one shorter where it has to be. -/
def slices (size : ℕ) (xs : List α) : List (List α) :=
  if size = 0 ∨ xs = [] then [] else xs.take size :: slices size (xs.drop size)
termination_by xs.length
decreasing_by
  have hcut : ¬(size = 0 ∨ xs = []) := ‹_›
  push Not at hcut
  rw [List.length_drop]
  exact Nat.sub_lt (List.length_pos_of_ne_nil hcut.2) (Nat.pos_of_ne_zero hcut.1)

theorem slices_nil (size : ℕ) : slices size ([] : List α) = [] := by
  rw [slices]
  exact if_pos (.inr rfl)

theorem slices_cut {size : ℕ} {xs : List α} (hsize : 0 < size) (hxs : xs ≠ []) :
    slices size xs = xs.take size :: slices size (xs.drop size) := by
  have hcut : ¬(size = 0 ∨ xs = []) := by
    rintro (hzero | hnil)
    · exact hsize.ne' hzero
    · exact hxs hnil
  rw [slices]
  exact if_neg hcut

/-- A pass over the slices keeps what each slice of the size keeps, the list so far included. -/
theorem slices_foldl {size : ℕ} (hsize : 0 < size) {step : σ → List α → σ}
    {P : List α → σ → Prop}
    (hstep : ∀ before s piece, piece.length ≤ size → piece ≠ [] → P before s →
      P (before ++ piece) (step s piece))
    (xs before : List α) (s : σ) (hs : P before s) :
    P (before ++ xs) ((slices size xs).foldl step s) := by
  by_cases hxs : xs = []
  · subst hxs
    rw [slices_nil, List.append_nil]
    exact hs
  · have hshort : (xs.take size).length ≤ size := List.length_take_le size xs
    have hsome : xs.take size ≠ [] := by
      intro hnil
      rcases List.take_eq_nil_iff.mp hnil with hzero | hnone
      · exact hsize.ne' hzero
      · exact hxs hnone
    have hnext := hstep before s (xs.take size) hshort hsome hs
    have hshrinks : (xs.drop size).length < xs.length := by
      rw [List.length_drop]
      exact Nat.sub_lt (List.length_pos_of_ne_nil hxs) hsize
    have hrest := slices_foldl hsize hstep (xs.drop size) _ _ hnext
    rw [List.append_assoc, List.take_append_drop] at hrest
    rw [slices_cut hsize hxs]
    exact hrest
termination_by xs.length

end JamStream.Foundations
