import JamStream.Foundations.Runs

/-! What a run costs, input by input, and the bound a potential gives: each input is paid
for by what the potential falls. -/

namespace JamStream.Runs
variable {σ ι : Type*}

/-- The sum of what each input costs in the state it is fed to. -/
def total (step : σ → ι → σ) (cost : σ → ι → ℕ) : σ → List ι → ℕ
  | _, [] => 0
  | s, i :: is => cost s i + total step cost (step s i) is

theorem total_le_potential {step : σ → ι → σ} {cost : σ → ι → ℕ} {potential : σ → ℕ}
    {P : σ → Prop} {price : ℕ} {is : List ι}
    (hstep : ∀ s, ∀ i ∈ is, P s →
      P (step s i) ∧ price * cost s i + potential (step s i) ≤ potential s)
    {s : σ} (hs : P s) : price * total step cost s is ≤ potential s := by
  induction is generalizing s with
  | nil => exact Nat.zero_le _
  | cons i is ih =>
    obtain ⟨hnext, hpaid⟩ := hstep s i List.mem_cons_self hs
    have hrest := ih (fun s j hj => hstep s j (List.mem_cons_of_mem i hj)) hnext
    calc price * total step cost s (i :: is)
        = price * cost s i + price * total step cost (step s i) is := Nat.mul_add _ _ _
      _ ≤ price * cost s i + potential (step s i) := Nat.add_le_add_left hrest _
      _ ≤ potential s := hpaid

end JamStream.Runs
