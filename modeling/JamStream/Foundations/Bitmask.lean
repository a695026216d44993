import Mathlib

/-! A 32-bit mask built by setting one bit at a time, and reading it back by
shifting. Both are stated through `Nat.testBit`. -/

namespace JamStream.Foundations

def maskOf (p : ℕ → Bool) (n : ℕ) : UInt32 :=
  (List.range n).foldl (fun bits i => if p i then bits ||| (1 <<< UInt32.ofNat i) else bits) 0

theorem maskOf_succ (p : ℕ → Bool) (n : ℕ) :
    maskOf p (n + 1) = if p n then maskOf p n ||| (1 <<< UInt32.ofNat n) else maskOf p n := by
  simp only [maskOf, List.range_succ, List.foldl_append, List.foldl_cons, List.foldl_nil]

theorem toNat_one_shiftLeft {n : ℕ} (hn : n < 32) :
    ((1 : UInt32) <<< UInt32.ofNat n).toNat = 2 ^ n := by
  have hlt : 2 ^ n < 2 ^ 32 := Nat.pow_lt_pow_right (by norm_num) hn
  have hmod : n % 2 ^ 32 % 32 = n := by omega
  rw [UInt32.toNat_shiftLeft, UInt32.toNat_ofNat', hmod, Nat.shiftLeft_eq]
  simpa using hlt

theorem testBit_maskOf (p : ℕ → Bool) {n : ℕ} (hn : n ≤ 32) (i : ℕ) :
    (maskOf p n).toNat.testBit i = (decide (i < n) && p i) := by
  induction n with
  | zero => simp [maskOf]
  | succ n ih =>
    have hrec := ih (by omega)
    rw [maskOf_succ]
    by_cases hp : p n
    · rw [if_pos hp, UInt32.toNat_or, Nat.testBit_or, hrec, toNat_one_shiftLeft (by omega),
        Nat.testBit_two_pow]
      by_cases hin : n = i
      · subst hin
        simp [hp]
      · have hiff : i < n + 1 ↔ i < n := by omega
        simp [hin, hiff]
    · rw [if_neg hp, hrec]
      by_cases hin : n = i
      · subst hin
        simp [hp]
      · have hiff : i < n + 1 ↔ i < n := by omega
        simp [hiff]

theorem shiftRight_and_one (bits i : UInt32) (hi : i.toNat < 32) :
    ((bits >>> i) &&& 1 == 1) = bits.toNat.testBit i.toNat := by
  have hmod : i.toNat % 32 = i.toNat := Nat.mod_eq_of_lt hi
  rw [Bool.eq_iff_iff, beq_iff_eq, ← UInt32.toNat_inj, UInt32.toNat_and, UInt32.toNat_shiftRight,
    hmod, Nat.testBit_eq_decide_div_mod_eq, Nat.shiftRight_eq_div_pow]
  simp [Nat.and_one_is_mod]

end JamStream.Foundations
