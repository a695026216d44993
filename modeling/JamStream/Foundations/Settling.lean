import Mathlib

/-! Quantities that settle: bounded ones that, once they have fallen, never rise again. -/

namespace JamStream.Foundations

theorem settles_of_falling (f : ℕ → ℕ) (h : ∀ n, f (n + 1) ≤ f n) : ∃ N, ∀ n, N ≤ n → f n = f N := by
  have hmin : ∀ n, f (Function.argmin f) ≤ f n := fun n => Function.argmin_le f n
  refine ⟨Function.argmin f, fun n hn => ?_⟩
  exact (antitone_nat_of_succ_le h hn).antisymm (hmin n)

theorem settles_of_rising {f : ℕ → ℕ} {bound : ℕ} (h : ∀ n, f n ≤ f (n + 1))
    (hbound : ∀ n, f n ≤ bound) : ∃ N, ∀ n, N ≤ n → f n = f N := by
  have hfalling : ∀ n, bound - f (n + 1) ≤ bound - f n := fun n => Nat.sub_le_sub_left (h n) bound
  obtain ⟨N, hN⟩ := settles_of_falling (fun n => bound - f n) hfalling
  refine ⟨N, fun n hn => ?_⟩
  have hrest := hN n hn
  have hn := hbound n
  have hbase := hbound N
  omega

theorem settles_of_turn {f : ℕ → ℕ} {bound : ℕ} (hbound : ∀ n, f n ≤ bound)
    (hturn : ∀ m, f (m + 1) < f m → ∀ n, m ≤ n → f (n + 1) ≤ f n) :
    ∃ N, ∀ n, N ≤ n → f n = f N := by
  by_cases hfall : ∃ m, f (m + 1) < f m
  · obtain ⟨m, hm⟩ := hfall
    have hafter : ∀ n, f (m + (n + 1)) ≤ f (m + n) :=
      fun n => hturn m hm (m + n) (Nat.le_add_right m n)
    obtain ⟨N, hN⟩ := settles_of_falling (fun n => f (m + n)) hafter
    refine ⟨m + N, fun n hn => ?_⟩
    obtain ⟨k, rfl⟩ := Nat.exists_eq_add_of_le hn
    rw [Nat.add_assoc]
    exact hN (N + k) (Nat.le_add_right N k)
  · push Not at hfall
    exact settles_of_rising hfall hbound

end JamStream.Foundations
