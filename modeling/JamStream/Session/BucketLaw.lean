import JamStream.Foundations.Runs
import JamStream.Session.Buckets

/-! A token bucket over any sequence of calls, with a clock that may run backwards: what it grants,
and that it does not matter how often it is looked at. -/

namespace JamStream.Session.TokenBucket
open Runs

inductive Call
  | take (nowMs : UInt64)
  | available (nowMs : UInt64)

def Call.nowMs : Call → UInt64
  | .take nowMs | .available nowMs => nowMs

def step (b : TokenBucket) : Call → TokenBucket
  | .take nowMs => (b.take nowMs).1
  | .available nowMs => (b.available nowMs).1

def spends (b : TokenBucket) : Call → Bool
  | .take nowMs => (b.take nowMs).2
  | .available _ => false

def spent (b : TokenBucket) : List Call → List Bool
  | [] => []
  | call :: calls => b.spends call :: spent (b.step call) calls

def granted (b : TokenBucket) (calls : List Call) : ℕ := (b.spent calls).count true

theorem granted_cons (b : TokenBucket) (call : Call) (calls : List Call) :
    b.granted (call :: calls) = (b.spends call).toNat + (b.step call).granted calls := by
  unfold granted
  rw [spent, List.count_cons, Nat.add_comm]
  cases b.spends call
  · rfl
  · rfl

/-- The greatest time among some calls, and one seen before. -/
def latest (seen : ℕ) (calls : List Call) : ℕ :=
  calls.foldl (fun t call => max t call.nowMs.toNat) seen

/-- A call adds what the rate gives since the last time seen, and takes out what it grants. -/
theorem level_step {b : TokenBucket} (hb : b.level ≤ b.full) (call : Call) :
    (b.step call).capacity = b.capacity ∧ (b.step call).perSec = b.perSec ∧
      (b.step call).lastMs.toNat = max b.lastMs.toNat call.nowMs.toNat ∧
      1000 * (b.spends call).toNat + (b.step call).level ≤
        min b.full (b.level + b.perSec.toNat * (call.nowMs.toNat - b.lastMs.toNat)) := by
  cases call with
  | available nowMs =>
    obtain ⟨hcapacity, hrate, hlast, hlevel⟩ := b.refill_spec nowMs hb
    exact ⟨hcapacity, hrate, hlast, (Nat.zero_add _).trans_le hlevel⟩
  | take nowMs =>
    obtain ⟨hcapacity, hrate, hlast, hlevel⟩ := b.refill_spec nowMs hb
    simp only [step, spends, TokenBucket.take, Call.nowMs]
    split_ifs with hzero
    · exact ⟨hcapacity, hrate, hlast, (Nat.zero_add _).trans_le hlevel⟩
    · have hspent := level_spend hzero
      refine ⟨hcapacity, hrate, hlast, ?_⟩
      rw [Bool.toNat_true, Nat.mul_one, Nat.add_comm, hspent]
      exact hlevel

theorem granted_le {b : TokenBucket} {first seen taken : ℕ} (hb : b.level ≤ b.full)
    (hfirst : first ≤ seen) (hseen : seen ≤ b.lastMs.toNat)
    (htaken : taken + b.level ≤ b.full + b.perSec.toNat * (seen - first)) (calls : List Call) :
    taken + 1000 * b.granted calls ≤
      b.full + b.perSec.toNat * (latest seen calls - first) := by
  induction calls generalizing b seen taken with
  | nil => exact (Nat.le_add_right _ _).trans htaken
  | cons call calls ih =>
    obtain ⟨hcapacity, hrate, hlast, hlevel⟩ := level_step hb call
    have hfull : (b.step call).full = b.full := by
      unfold full
      rw [hcapacity]
    have hgain : b.perSec.toNat * (call.nowMs.toNat - b.lastMs.toNat) +
        b.perSec.toNat * (seen - first) ≤
          b.perSec.toNat * (max seen call.nowMs.toNat - first) := by
      rw [← Nat.mul_add]
      refine Nat.mul_le_mul_left _ ?_
      omega
    have hlater : (b.step call).level ≤ (b.step call).full := by
      rw [hfull]
      omega
    have hmore : taken + 1000 * (b.spends call).toNat + (b.step call).level ≤
        (b.step call).full +
          (b.step call).perSec.toNat * (max seen call.nowMs.toNat - first) := by
      rw [hfull, hrate]
      omega
    have hnext := ih hlater (hfirst.trans (Nat.le_max_left _ _)) (by omega) hmore
    rw [hfull, hrate] at hnext
    rw [granted_cons, latest, List.foldl_cons]
    rw [latest] at hnext
    omega

/-- The time that has passed does not overflow the account. -/
def Fits (b : TokenBucket) (nowMs : UInt64) : Prop :=
  b.millitokens.toNat + b.perSec.toNat * (nowMs.toNat - b.lastMs.toNat) < 2 ^ 64

instance (b : TokenBucket) (nowMs : UInt64) : Decidable (b.Fits nowMs) :=
  inferInstanceAs (Decidable (_ < _))

theorem toNat_saturatingMul {a b : UInt64} (h : a.toNat * b.toNat < 2 ^ 64) :
    (saturatingMul a b).toNat = a.toNat * b.toNat := by
  unfold saturatingMul
  rw [if_pos h, UInt64.toNat_mul, Nat.mod_eq_of_lt h]

theorem toNat_saturatingAdd32 (a b : UInt32) :
    (saturatingAdd32 a b).toNat = min (a.toNat + b.toNat) (2 ^ 32 - 1) := by
  unfold saturatingAdd32
  split_ifs with h
  · rw [UInt32.toNat_add, Nat.mod_eq_of_lt h]
    exact (Nat.min_eq_left (Nat.le_sub_one_of_lt h)).symm
  · have hmost : 2 ^ 32 - 1 ≤ a.toNat + b.toNat := (Nat.sub_le _ _).trans (not_lt.mp h)
    exact (Nat.min_eq_right hmost).symm

theorem toNat_saturatingU32 (n : UInt64) :
    (saturatingU32 n).toNat = min n.toNat (2 ^ 32 - 1) := by
  unfold saturatingU32
  split_ifs with h
  · rw [UInt64.lt_iff_toNat_lt] at h
    have hsmall : n.toNat < 2 ^ 32 := h
    rw [UInt64.toNat_toUInt32, Nat.mod_eq_of_lt hsmall]
    exact (Nat.min_eq_left (Nat.le_sub_one_of_lt hsmall)).symm
  · have hlarge : 2 ^ 32 ≤ n.toNat := UInt64.le_iff_toNat_le.mp (UInt64.not_lt.mp h)
    have hmost : 2 ^ 32 - 1 ≤ n.toNat := (Nat.sub_le _ _).trans hlarge
    exact (Nat.min_eq_right hmost).symm

theorem Fits.toNat_total {b : TokenBucket} {nowMs : UInt64} (h : b.Fits nowMs) :
    (b.millitokens + saturatingMul (saturatingSub nowMs b.lastMs) b.perSec.toUInt64).toNat =
      b.millitokens.toNat + b.perSec.toNat * (nowMs.toNat - b.lastMs.toNat) := by
  unfold Fits at h
  have hproduct : (saturatingSub nowMs b.lastMs).toNat * b.perSec.toUInt64.toNat =
      b.perSec.toNat * (nowMs.toNat - b.lastMs.toNat) := by
    rw [toNat_saturatingSub, UInt32.toNat_toUInt64, Nat.mul_comm]
  have hmul := toNat_saturatingMul (hproduct.trans_lt ((Nat.le_add_left _ _).trans_lt h))
  rw [UInt64.toNat_add, hmul, hproduct, Nat.mod_eq_of_lt h]

theorem refill_last (b : TokenBucket) (nowMs : UInt64) :
    (b.refill nowMs).capacity = b.capacity ∧ (b.refill nowMs).perSec = b.perSec ∧
      (b.refill nowMs).lastMs = max b.lastMs nowMs := by
  simp only [refill]
  split_ifs
  · exact ⟨rfl, rfl, rfl⟩
  · exact ⟨rfl, rfl, rfl⟩
  · exact ⟨rfl, rfl, rfl⟩

/-- Where nothing overflows, a refill is exact: whole tokens up to the capacity, and the rest
carried until it is reached. -/
theorem Fits.refill_exact {b : TokenBucket} {nowMs : UInt64} (h : b.Fits nowMs) {total : ℕ}
    (htotal : b.millitokens.toNat + b.perSec.toNat * (nowMs.toNat - b.lastMs.toNat) = total) :
    (b.refill nowMs).tokens.toNat =
        max b.tokens.toNat (min b.capacity.toNat (b.tokens.toNat + total / 1000)) ∧
      (b.refill nowMs).millitokens.toNat =
        if b.capacity.toNat ≤ (b.refill nowMs).tokens.toNat then 0 else total % 1000 := by
  have hsum := h.toNat_total.trans htotal
  simp only [refill]
  generalize b.millitokens + saturatingMul (saturatingSub nowMs b.lastMs) b.perSec.toUInt64 =
    sum at hsum ⊢
  by_cases hfull : b.capacity ≤ b.tokens
  · rw [if_pos hfull]
    rw [UInt32.le_iff_toNat_le] at hfull
    refine ⟨?_, ?_⟩
    · exact (Nat.max_eq_left ((Nat.min_le_left _ _).trans hfull)).symm
    · exact (if_pos hfull).symm
  · rw [if_neg hfull]
    rw [UInt32.le_iff_toNat_le, not_le] at hfull
    have hgained : (saturatingAdd32 b.tokens (saturatingU32 (sum / 1000))).toNat =
        min (b.tokens.toNat + min (total / 1000) (2 ^ 32 - 1)) (2 ^ 32 - 1) := by
      rw [toNat_saturatingAdd32, toNat_saturatingU32, UInt64.toNat_div, hsum]
      rfl
    have htokens := toNat_min32 b.capacity
      (saturatingAdd32 b.tokens (saturatingU32 (sum / 1000)))
    rw [hgained] at htokens
    have hcapacity := b.capacity.toNat_lt
    refine ⟨htokens.trans (by omega), ?_⟩
    simp only [UInt32.le_iff_toNat_le]
    split_ifs
    · exact UInt64.toNat_zero
    · rw [UInt64.toNat_mod, hsum]
      rfl

theorem ext_toNat {b b' : TokenBucket} (hcapacity : b.capacity = b'.capacity)
    (hrate : b.perSec = b'.perSec) (htokens : b.tokens.toNat = b'.tokens.toNat)
    (hmilli : b.millitokens.toNat = b'.millitokens.toNat)
    (hlast : b.lastMs.toNat = b'.lastMs.toNat) : b = b' := by
  obtain ⟨capacity, perSec, tokens, millitokens, lastMs⟩ := b
  obtain ⟨capacity', perSec', tokens', millitokens', lastMs'⟩ := b'
  rw [TokenBucket.mk.injEq]
  exact ⟨hcapacity, hrate, UInt32.toNat_inj.mp htokens, UInt64.toNat_inj.mp hmilli,
    UInt64.toNat_inj.mp hlast⟩

theorem refill_refill {b : TokenBucket} {first later : UInt64} (h : first ≤ later)
    (hfits : b.Fits later) : (b.refill first).refill later = b.refill later := by
  rw [UInt64.le_iff_toNat_le] at h
  obtain ⟨hcapacity, hrate, hlast⟩ := b.refill_last first
  have hlast' : (b.refill first).lastMs.toNat = max b.lastMs.toNat first.toNat := by
    rw [hlast, toNat_max]
  -- the time is the same in one stretch or in two
  have hgain : b.perSec.toNat * (later.toNat - b.lastMs.toNat) =
      b.perSec.toNat * (first.toNat - b.lastMs.toNat) +
        b.perSec.toNat * (later.toNat - max b.lastMs.toNat first.toNat) := by
    rw [← Nat.mul_add]
    congr 1
    omega
  have hfirst : b.Fits first := by
    unfold Fits at hfits ⊢
    omega
  obtain ⟨htokens, hmilli⟩ := hfirst.refill_exact rfl
  have hrest : (b.refill first).Fits later := by
    unfold Fits at hfits ⊢
    rw [hrate, hlast', hmilli]
    split_ifs
    · omega
    · omega
  obtain ⟨htokens', hmilli'⟩ := hrest.refill_exact rfl
  obtain ⟨htokens'', hmilli''⟩ := hfits.refill_exact rfl
  rw [hcapacity, hrate, hlast'] at htokens' hmilli'
  rw [hgain] at htokens'' hmilli''
  generalize b.perSec.toNat * (first.toNat - b.lastMs.toNat) = before at *
  generalize b.perSec.toNat * (later.toNat - max b.lastMs.toNat first.toNat) = after at *
  have hsame : ((b.refill first).refill later).tokens.toNat = (b.refill later).tokens.toNat := by
    rw [htokens', htokens'', hmilli, htokens]
    split_ifs
    · omega
    · omega
  refine ext_toNat ?_ ?_ hsame ?_ ?_
  · exact ((b.refill first).refill_last later).1.trans
      (hcapacity.trans (b.refill_last later).1.symm)
  · exact ((b.refill first).refill_last later).2.1.trans
      (hrate.trans (b.refill_last later).2.1.symm)
  · rw [hmilli', hmilli'', hsame, hmilli, htokens]
    rw [htokens''] at *
    split_ifs
    · rfl
    · omega
    · omega
  · rw [((b.refill first).refill_last later).2.2, (b.refill_last later).2.2, toNat_max, toNat_max,
      hlast']
    omega

theorem take_congr {b b' : TokenBucket} {nowMs : UInt64} (h : b.refill nowMs = b'.refill nowMs) :
    b.take nowMs = b'.take nowMs := by
  simp only [TokenBucket.take]
  rw [h]

theorem available_congr {b b' : TokenBucket} {nowMs : UInt64}
    (h : b.refill nowMs = b'.refill nowMs) : b.available nowMs = b'.available nowMs := by
  simp only [TokenBucket.available]
  rw [h]

theorem spent_available {b : TokenBucket} {nowMs : UInt64} {call : Call}
    (h : nowMs ≤ call.nowMs) (hfits : b.Fits call.nowMs) (calls : List Call) :
    (b.available nowMs).1.spent (call :: calls) = b.spent (call :: calls) := by
  have hrefill := refill_refill h hfits
  cases call with
  | take later =>
    have htake : (b.available nowMs).1.take later = b.take later := take_congr hrefill
    simp only [spent, spends, step, htake]
  | available later =>
    have hlook : (b.available nowMs).1.available later = b.available later :=
      available_congr hrefill
    simp only [spent, spends, step, hlook]

theorem reached (capacity perSec : UInt32) (calls : List Call) :
    (run step (new capacity perSec) calls).Sound capacity perSec := by
  refine run_invariant (fun b call hb => ?_) (new_sound capacity perSec) calls
  cases call with
  | take nowMs => exact hb.take nowMs
  | available nowMs => exact hb.refill nowMs

/-- What a bucket grants in any stretch of calls is its capacity and what the rate gives from
the first of them to the latest. Two refills are one, and a look changes nothing after it,
while the clock does not go back behind them and the account does not overflow. -/
theorem bucket_law :
    (∀ (capacity perSec : UInt32) (earlier : List Call) (first : Call) (calls : List Call),
      (run step (new capacity perSec) earlier).granted (first :: calls) ≤
        capacity.toNat +
          perSec.toNat * (latest first.nowMs.toNat calls - first.nowMs.toNat) / 1000) ∧
    (∀ (b : TokenBucket) (first later : UInt64), first ≤ later → b.Fits later →
      (b.refill first).refill later = b.refill later) ∧
    ∀ (b : TokenBucket) (nowMs : UInt64) (call : Call) (calls : List Call),
      nowMs ≤ call.nowMs → b.Fits call.nowMs →
        (b.available nowMs).1.spent (call :: calls) = b.spent (call :: calls) := by
  refine ⟨?_, fun b first later h hfits => refill_refill h hfits,
    fun b nowMs call calls h hfits => spent_available h hfits calls⟩
  intro capacity perSec earlier first calls
  have hb := reached capacity perSec earlier
  generalize run step (new capacity perSec) earlier = b at hb ⊢
  obtain ⟨hcapacity, hrate, hlast, hlevel⟩ := level_step hb.level first
  have hfull : (b.step first).full = b.full := by
    unfold full
    rw [hcapacity]
  -- the first call finds the account full at most, whatever came before
  have hopening : 1000 * (b.spends first).toNat + (b.step first).level ≤
      (b.step first).full +
        (b.step first).perSec.toNat * (first.nowMs.toNat - first.nowMs.toNat) := by
    rw [hfull]
    exact (hlevel.trans (Nat.min_le_left _ _)).trans (Nat.le_add_right _ _)
  have hseen : first.nowMs.toNat ≤ (b.step first).lastMs.toNat := by
    rw [hlast]
    exact Nat.le_max_right _ _
  have hlater : (b.step first).level ≤ (b.step first).full := by
    rw [hfull]
    omega
  -- from there on each call adds what the clock gives and takes what it grants
  have hall := granted_le hlater (Nat.le_refl _) hseen hopening calls
  rw [hfull, hrate, hb.perSec] at hall
  have hsize : b.full = 1000 * capacity.toNat := by
    unfold full
    rw [hb.capacity]
  rw [granted_cons]
  omega

theorem bucket_law_second :
    (run step (new 2 1) [.take 0]).granted [.take 5, .available 900, .take 300, .take 1100] ≤
        2 + 1 * (1100 - 5) / 1000 ∧
      ((new 2 1).refill 400).refill 1500 = (new 2 1).refill 1500 ∧
      ((new 2 1).available 400).1.spent [.take 1500, .take 0] =
        (new 2 1).spent [.take 1500, .take 0] :=
  ⟨bucket_law.1 2 1 [.take 0] (.take 5) [.available 900, .take 300, .take 1100],
    bucket_law.2.1 (new 2 1) 400 1500 (by decide) (by decide +kernel),
    bucket_law.2.2 (new 2 1) 400 (.take 1500) [.take 0] (by decide) (by decide +kernel)⟩

/-- A look at a second that the next call has not reached yet earns it a token. -/
theorem look_ahead_grants :
    ¬ ∀ (b : TokenBucket) (seenMs nowMs : UInt64),
      ((b.available seenMs).1.take nowMs).2 = (b.take nowMs).2 :=
  fun h => absurd (h ((new 1 1).step (.take 0)) 1000 0) (by decide +kernel)

end JamStream.Session.TokenBucket
