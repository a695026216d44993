import Mathlib

/-! A sequence cut into blocks of one size, each encoded under its number. What comes of the
first blocks depends on nothing behind them. -/

namespace JamStream.Foundations.Blocks
variable {α β ε : Type*} (size : ℕ) (encode : ℕ → List α → Except ε (List β))

def coded : ℕ → List α → Except ε (List β)
  | 0, _ => .ok []
  | n + 1, xs =>
    match coded n xs with
    | .error e => .error e
    | .ok done =>
      match encode n ((xs.drop (n * size)).take size) with
      | .error e => .error e
      | .ok block => .ok (done ++ block)

variable {size : ℕ} {encode : ℕ → List α → Except ε (List β)} {n m : ℕ} {xs : List α}
  {done block : List β} {e : ε}

theorem coded_ok (h : coded size encode n xs = .ok done)
    (hblock : encode n ((xs.drop (n * size)).take size) = .ok block) :
    coded size encode (n + 1) xs = .ok (done ++ block) := by
  rw [coded, h]
  simp only
  rw [hblock]

theorem coded_error (h : coded size encode n xs = .ok done)
    (hblock : encode n ((xs.drop (n * size)).take size) = .error e) :
    coded size encode (n + 1) xs = .error e := by
  rw [coded, h]
  simp only
  rw [hblock]

theorem coded_error_mono (h : coded size encode n xs = .error e) (hnm : n ≤ m) :
    coded size encode m xs = .error e := by
  induction m, hnm using Nat.le_induction with
  | base => exact h
  | succ m _ ih => rw [coded, ih]

theorem coded_append (h : n * size ≤ xs.length) (ys : List α) :
    coded size encode n (xs ++ ys) = coded size encode n xs := by
  induction n with
  | zero => rfl
  | succ n ih =>
    have hsplit : (n + 1) * size = n * size + size := Nat.succ_mul n size
    have hblock : ((xs ++ ys).drop (n * size)).take size = (xs.drop (n * size)).take size := by
      rw [List.drop_append_of_le_length (by omega), List.take_append_of_le_length]
      rw [List.length_drop]
      omega
    rw [coded, coded, ih (by omega), hblock]

end JamStream.Foundations.Blocks
