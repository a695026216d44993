import Mathlib

/-! A sequence without the elements of a kind at its two ends. -/

namespace JamStream.Foundations
variable {α : Type*} {p : α → Bool} {xs pad : List α} {c : α}

def trimBy (p : α → Bool) (xs : List α) : List α :=
  ((xs.dropWhile p).reverse.dropWhile p).reverse

theorem trimBy_pad (h : ∀ c ∈ pad, p c = true) : trimBy p (pad ++ xs) = trimBy p xs := by
  rw [trimBy, List.dropWhile_append_of_pos h]
  rfl

theorem trimBy_concat (h : p c = true) : trimBy p (xs ++ [c]) = trimBy p xs := by
  unfold trimBy
  rw [List.dropWhile_append]
  by_cases hall : (xs.dropWhile p).isEmpty = true
  · rw [if_pos hall, List.isEmpty_iff.mp hall, List.dropWhile_cons_of_pos h]
    rfl
  · rw [if_neg hall, List.reverse_concat, List.dropWhile_cons_of_pos h]

theorem trimBy_self (hhead : ∀ c ∈ xs.head?, p c = false) (hlast : ∀ c ∈ xs.getLast?, p c = false) :
    trimBy p xs = xs := by
  have hkeep : ∀ ys : List α, (∀ c ∈ ys.head?, p c = false) → ys.dropWhile p = ys := by
    intro ys hys
    cases ys with
    | nil => rfl
    | cons c ys =>
      refine List.dropWhile_cons_of_neg ?_
      rw [hys c rfl]
      exact Bool.false_ne_true
  rw [trimBy, hkeep xs hhead, hkeep xs.reverse, List.reverse_reverse]
  rwa [List.head?_reverse]

theorem trimBy_of_forall (h : ∀ c ∈ xs, p c = false) : trimBy p xs = xs :=
  trimBy_self (fun c hc => h c (List.mem_of_mem_head? hc))
    fun c hc => h c (List.mem_of_mem_getLast? hc)

theorem trimBy_trimBy (p : α → Bool) (xs : List α) : trimBy p (trimBy p xs) = trimBy p xs := by
  have hfront : ∀ c ∈ (xs.dropWhile p).head?, p c = false := by
    intro c hc
    have hfirst := List.head?_dropWhile_not p xs
    rw [show List.head? _ = some c from hc] at hfirst
    exact hfirst
  refine trimBy_self (fun c hc => ?_) (fun c hc => ?_)
  · have hstart : trimBy p xs <+: xs.dropWhile p := by
      have hend := List.reverse_prefix.mpr (List.dropWhile_suffix (l := (xs.dropWhile p).reverse) p)
      rwa [List.reverse_reverse] at hend
    apply hfront
    obtain ⟨rest, hrest⟩ := hstart
    obtain ⟨tail, htail⟩ := List.head?_eq_some_iff.mp hc
    rw [← hrest, htail]
    rfl
  · rw [trimBy, List.getLast?_reverse] at hc
    have hlast := List.head?_dropWhile_not p (xs.dropWhile p).reverse
    rw [show List.head? _ = some c from hc] at hlast
    exact hlast

theorem getLast?_of_trimBy (h : trimBy p xs = xs) : ∀ c ∈ xs.getLast?, p c = false := by
  intro c hc
  rw [← h, trimBy, List.getLast?_reverse] at hc
  have hfirst := List.head?_dropWhile_not p (xs.dropWhile p).reverse
  rw [show List.head? _ = some c from hc] at hfirst
  exact hfirst

end JamStream.Foundations
