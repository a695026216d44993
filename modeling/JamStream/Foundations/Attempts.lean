import Mathlib

/-! An attempt made again while it fails in a way that may pass, a bounded number of times. -/

namespace JamStream.Foundations

/-- What an attempt comes to: an answer, an error that stays, or one that may pass. -/
inductive Verdict (ε α : Type)
  | done (a : α)
  | fatal (e : ε)
  | again (e : ε)

namespace Attempts
variable {σ ε α : Type}

def goesOn : Verdict ε α → Bool
  | .again _ => true
  | _ => false

def answer : Verdict ε α → Except ε α
  | .done a => .ok a
  | .fatal e => .error e
  | .again e => .error e

/-- Attempt `k`, and at most so many more after it. -/
def retrying (attempt : ℕ → σ → Verdict ε α × σ) : ℕ → ℕ → σ → Except ε α × σ
  | 0, k, s => (answer (attempt k s).1, (attempt k s).2)
  | left + 1, k, s =>
    if goesOn (attempt k s).1 then retrying attempt left (k + 1) (attempt k s).2
    else (answer (attempt k s).1, (attempt k s).2)

/-- The attempts that are made, from which of them would go on. -/
def made (again : ℕ → Bool) : ℕ → ℕ → List ℕ
  | 0, k => [k]
  | left + 1, k => if again k then k :: made again left (k + 1) else [k]

variable {attempt : ℕ → σ → Verdict ε α × σ}

theorem retrying_invariant {P : σ → Prop} (h : ∀ k s, P s → P (attempt k s).2) (left k : ℕ)
    {s : σ} (hs : P s) : P (retrying attempt left k s).2 := by
  induction left generalizing k s with
  | zero => exact h k s hs
  | succ left ih =>
    rw [retrying]
    split_ifs
    · exact ih (k + 1) (h k s hs)
    · exact h k s hs

/-- Where some attempts add one to a count and the others leave it, the loop adds as many as
it makes of them. -/
theorem retrying_count {size : σ → ℕ} {adds again : ℕ → Bool}
    (hadds : ∀ k s, size (attempt k s).2 = size s + (adds k).toNat)
    (hagain : ∀ k s, goesOn (attempt k s).1 = again k) (left k : ℕ) (s : σ) :
    size (retrying attempt left k s).2 = size s + (made again left k).countP adds := by
  have hone : ∀ k, (adds k).toNat = [k].countP adds := by
    intro k
    rw [List.countP_singleton]
    cases adds k
    · rfl
    · rfl
  induction left generalizing k s with
  | zero =>
    rw [retrying, hadds, hone]
    rfl
  | succ left ih =>
    rw [retrying, hagain, made]
    split_ifs
    · have hrest := ih (k + 1) (attempt k s).2
      rw [hrest, hadds, hone, Nat.add_assoc, ← List.countP_append]
      rfl
    · rw [hadds, hone]

end Attempts
end JamStream.Foundations
