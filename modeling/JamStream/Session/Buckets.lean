import JamStream.Session.Limits

/-! What a token bucket allows over a stretch of time: no more than its capacity and what
the rate adds, wherever the stretch begins. Accounts are kept in thousandths of a token. -/

namespace JamStream.Session.TokenBucket

def full (b : TokenBucket) : ℕ := 1000 * b.capacity.toNat

def level (b : TokenBucket) : ℕ := 1000 * b.tokens.toNat + b.millitokens.toNat

/-- What is left to spend from `start` to `stop`. -/
def allowance (start stop : ℕ) (b : TokenBucket) : ℕ :=
  min b.full (b.level + b.perSec.toNat * (start - b.lastMs.toNat)) +
    b.perSec.toNat * (stop - max b.lastMs.toNat start)

theorem allowance_le (start stop : ℕ) (b : TokenBucket) :
    b.allowance start stop ≤ b.full + b.perSec.toNat * (stop - start) := by
  refine Nat.add_le_add (min_le_left _ _) (Nat.mul_le_mul_left _ ?_)
  exact Nat.sub_le_sub_left (le_max_right _ _) _

theorem toNat_saturatingSub (a b : UInt64) : (saturatingSub a b).toNat = a.toNat - b.toNat := by
  unfold saturatingSub
  split_ifs with h
  · rw [UInt64.lt_iff_toNat_lt] at h
    exact (Nat.sub_eq_zero_of_le h.le).symm
  · rw [UInt64.not_lt] at h
    exact UInt64.toNat_sub_of_le a b h

theorem toNat_saturatingMul_le (a b : UInt64) :
    (saturatingMul a b).toNat ≤ a.toNat * b.toNat := by
  unfold saturatingMul
  split_ifs with h
  · exact (Nat.mod_eq_of_lt h).le
  · exact le_trans (by decide) (not_lt.mp h)

theorem toNat_saturatingAdd32_le (a b : UInt32) :
    (saturatingAdd32 a b).toNat ≤ a.toNat + b.toNat := by
  unfold saturatingAdd32
  split_ifs with h
  · exact (Nat.mod_eq_of_lt h).le
  · exact le_trans (by decide) (not_lt.mp h)

theorem toNat_saturatingU32_le (n : UInt64) : (saturatingU32 n).toNat ≤ n.toNat := by
  unfold saturatingU32
  split_ifs with h
  · exact Nat.mod_le _ _
  · exact le_trans (by decide) (UInt64.le_iff_toNat_le.mp (UInt64.not_lt.mp h))

theorem toNat_max (a b : UInt64) : (max a b).toNat = max a.toNat b.toNat := by
  show (if a ≤ b then b else a).toNat = max a.toNat b.toNat
  split_ifs with h
  · exact (max_eq_right (UInt64.le_iff_toNat_le.mp h)).symm
  · rw [UInt64.le_iff_toNat_le, not_le] at h
    exact (max_eq_left h.le).symm

theorem toNat_min32 (a b : UInt32) : (min a b).toNat = min a.toNat b.toNat := by
  show (if a ≤ b then a else b).toNat = min a.toNat b.toNat
  split_ifs with h
  · exact (min_eq_left (UInt32.le_iff_toNat_le.mp h)).symm
  · rw [UInt32.le_iff_toNat_le, not_le] at h
    exact (min_eq_right h.le).symm

theorem toNat_total_le (b : TokenBucket) (nowMs : UInt64) :
    (b.millitokens + saturatingMul (saturatingSub nowMs b.lastMs) b.perSec.toUInt64).toNat ≤
      b.millitokens.toNat + b.perSec.toNat * (nowMs.toNat - b.lastMs.toNat) := by
  have hmul := toNat_saturatingMul_le (saturatingSub nowMs b.lastMs) b.perSec.toUInt64
  rw [toNat_saturatingSub, UInt32.toNat_toUInt64, Nat.mul_comm] at hmul
  rw [UInt64.toNat_add]
  exact (Nat.mod_le _ _).trans (Nat.add_le_add_left hmul _)

/-- A refill changes the account, by what the rate adds at most, and the time it was made. -/
theorem refill_spec (b : TokenBucket) (nowMs : UInt64) (hb : b.level ≤ b.full) :
    (b.refill nowMs).capacity = b.capacity ∧ (b.refill nowMs).perSec = b.perSec ∧
      (b.refill nowMs).lastMs.toNat = max b.lastMs.toNat nowMs.toNat ∧
      (b.refill nowMs).level ≤
        min b.full (b.level + b.perSec.toNat * (nowMs.toNat - b.lastMs.toNat)) := by
  have htotal := b.toNat_total_le nowMs
  simp only [refill]
  generalize b.millitokens + saturatingMul (saturatingSub nowMs b.lastMs) b.perSec.toUInt64 =
    total at htotal ⊢
  unfold level full at *
  by_cases hfull : b.capacity ≤ b.tokens
  · rw [if_pos hfull]
    refine ⟨rfl, rfl, toNat_max _ _, ?_⟩
    show 1000 * b.tokens.toNat + 0 ≤ _
    omega
  · rw [if_neg hfull]
    refine ⟨rfl, rfl, toNat_max _ _, ?_⟩
    have hgained := toNat_saturatingAdd32_le b.tokens (saturatingU32 (total / 1000))
    have hwhole := toNat_saturatingU32_le (total / 1000)
    have hsplit : (total / 1000).toNat = total.toNat / 1000 := UInt64.toNat_div _ _
    have hrest : (total % 1000).toNat = total.toNat % 1000 := UInt64.toNat_mod _ _
    have htokens := toNat_min32 b.capacity (saturatingAdd32 b.tokens (saturatingU32 (total / 1000)))
    generalize min b.capacity (saturatingAdd32 b.tokens (saturatingU32 (total / 1000))) =
      tokens at htokens ⊢
    show 1000 * tokens.toNat + (if b.capacity ≤ tokens then 0 else total % 1000 : UInt64).toNat ≤ _
    split_ifs with hreached
    · rw [UInt32.le_iff_toNat_le] at hreached
      rw [UInt64.toNat_zero]
      omega
    · rw [UInt32.le_iff_toNat_le, not_le] at hreached
      rw [hrest]
      omega

theorem refill_level (b : TokenBucket) (nowMs : UInt64) (hb : b.level ≤ b.full) :
    (b.refill nowMs).level ≤ (b.refill nowMs).full := by
  obtain ⟨hcapacity, -, -, hlevel⟩ := b.refill_spec nowMs hb
  unfold full
  rw [hcapacity]
  exact hlevel.trans (min_le_left _ _)

theorem allowance_refill {start stop : ℕ} (b : TokenBucket) {nowMs : UInt64}
    (hb : b.level ≤ b.full) (hstart : start ≤ nowMs.toNat) (hstop : nowMs.toNat ≤ stop) :
    (b.refill nowMs).allowance start stop ≤ b.allowance start stop := by
  obtain ⟨hcapacity, hrate, hlast, hlevel⟩ := b.refill_spec nowMs hb
  have hfull : (b.refill nowMs).full = b.full := by
    unfold full
    rw [hcapacity]
  unfold allowance
  rw [hfull, hrate, hlast]
  generalize (b.refill nowMs).level = after at hlevel ⊢
  generalize b.level = before at hb hlevel ⊢
  generalize b.full = cap at hb hlevel ⊢
  generalize b.perSec.toNat = rate at hlevel ⊢
  generalize b.lastMs.toNat = last at hlevel ⊢
  generalize nowMs.toNat = now at hstart hstop hlevel ⊢
  rw [max_eq_left (hstart.trans (le_max_right last now)),
    Nat.sub_eq_zero_of_le (hstart.trans (le_max_right last now)), Nat.mul_zero, Nat.add_zero]
  rcases le_total start last with hlate | hearly
  · -- the account is younger than the stretch
    rw [max_eq_left hlate, Nat.sub_eq_zero_of_le hlate, Nat.mul_zero, Nat.add_zero]
    rcases le_total now last with hback | hforward
    · rw [max_eq_left hback, Nat.sub_eq_zero_of_le hback, Nat.mul_zero, Nat.add_zero] at *
      omega
    · rw [max_eq_right hforward]
      have hsum : rate * (stop - last) = rate * (now - last) + rate * (stop - now) := by
        rw [← Nat.mul_add]
        congr 1
        omega
      omega
  · -- the stretch begins with what the account has gained before it
    rw [max_eq_right hearly, max_eq_right (hearly.trans hstart)]
    have hgain : rate * (now - last) = rate * (start - last) + rate * (now - start) := by
      rw [← Nat.mul_add]
      congr 1
      omega
    have hsum : rate * (stop - start) = rate * (now - start) + rate * (stop - now) := by
      rw [← Nat.mul_add]
      congr 1
      omega
    omega

/-- An account of this size and rate that holds no more than it can. -/
structure Sound (capacity perSec : UInt32) (b : TokenBucket) : Prop where
  capacity : b.capacity = capacity
  perSec : b.perSec = perSec
  level : b.level ≤ b.full

variable {capacity perSec : UInt32} {b : TokenBucket} {nowMs : UInt64} {start stop : ℕ}

theorem new_sound (capacity perSec : UInt32) : (new capacity perSec).Sound capacity perSec where
  capacity := rfl
  perSec := rfl
  level := le_rfl

theorem Sound.refill (hb : b.Sound capacity perSec) (nowMs : UInt64) :
    (b.refill nowMs).Sound capacity perSec := by
  obtain ⟨hcapacity, hrate, -⟩ := b.refill_spec nowMs hb.level
  exact ⟨hcapacity.trans hb.capacity, hrate.trans hb.perSec, b.refill_level nowMs hb.level⟩

theorem level_spend {b : TokenBucket} (hb : b.tokens ≠ 0) :
    { b with tokens := b.tokens - 1 }.level + 1000 = b.level := by
  have hone : 1 ≤ b.tokens.toNat := by
    refine Nat.one_le_iff_ne_zero.mpr fun hzero => hb ?_
    exact UInt32.toNat_inj.mp hzero
  have hsub : (b.tokens - 1).toNat = b.tokens.toNat - 1 :=
    UInt32.toNat_sub_of_le _ _ (UInt32.le_iff_toNat_le.mpr hone)
  show 1000 * (b.tokens - 1).toNat + b.millitokens.toNat + 1000 =
    1000 * b.tokens.toNat + b.millitokens.toNat
  omega

theorem Sound.take (hb : b.Sound capacity perSec) (nowMs : UInt64) :
    (b.take nowMs).1.Sound capacity perSec := by
  have hrefilled := hb.refill nowMs
  simp only [TokenBucket.take]
  split_ifs with hzero
  · exact hrefilled
  · refine ⟨hrefilled.capacity, hrefilled.perSec, ?_⟩
    have hspent := level_spend hzero
    have hlevel := hrefilled.level
    exact le_trans (Nat.le_of_add_right_le hspent.le) hlevel

theorem Sound.allowance_take (hb : b.Sound capacity perSec) (hstart : start ≤ nowMs.toNat)
    (hstop : nowMs.toNat ≤ stop) :
    1000 * (b.take nowMs).2.toNat + (b.take nowMs).1.allowance start stop ≤
      b.allowance start stop := by
  have hrefill := b.allowance_refill hb.level hstart hstop
  have hlast := (b.refill_spec nowMs hb.level).2.2.1
  have hlevel := b.refill_level nowMs hb.level
  simp only [TokenBucket.take]
  generalize b.refill nowMs = r at hrefill hlast hlevel ⊢
  split_ifs with hzero
  · exact (Nat.zero_add _).trans_le hrefill
  · refine le_trans ?_ hrefill
    have hspent := level_spend hzero
    have hyoung : start - r.lastMs.toNat = 0 := by omega
    unfold allowance
    show 1000 * 1 + (min r.full ({ r with tokens := r.tokens - 1 }.level + r.perSec.toNat *
      (start - r.lastMs.toNat)) + r.perSec.toNat * (stop - max r.lastMs.toNat start)) ≤ _
    rw [hyoung, Nat.mul_zero, Nat.add_zero, Nat.add_zero]
    omega

theorem Sound.allowance_le (hb : b.Sound capacity perSec) (start stop : ℕ) :
    b.allowance start stop ≤ 1000 * capacity.toNat + perSec.toNat * (stop - start) := by
  have h := b.allowance_le start stop
  unfold full at h
  rwa [hb.capacity, hb.perSec] at h

theorem le_saturatingAdd32 (a b : UInt32) : a ≤ saturatingAdd32 a b := by
  rw [UInt32.le_iff_toNat_le]
  unfold saturatingAdd32
  split_ifs with h
  · rw [UInt32.toNat_add, Nat.mod_eq_of_lt h]
    exact Nat.le_add_right _ _
  · exact Nat.le_of_lt_succ a.toNat_lt

theorem le_tokens_refill (b : TokenBucket) (nowMs : UInt64) :
    b.tokens ≤ (b.refill nowMs).tokens := by
  simp only [TokenBucket.refill]
  by_cases hfull : b.capacity ≤ b.tokens
  · rw [if_pos hfull]
    exact UInt32.le_refl _
  · rw [if_neg hfull]
    rw [UInt32.not_le, UInt32.lt_iff_toNat_lt] at hfull
    rw [UInt32.le_iff_toNat_le, toNat_min32]
    exact le_min hfull.le (UInt32.le_iff_toNat_le.mp (le_saturatingAdd32 _ _))

theorem take_of_available (h : (b.available nowMs).2) : ((b.available nowMs).1.take nowMs).2 := by
  have hsome : 0 < (b.refill nowMs).tokens := of_decide_eq_true h
  have hkept := le_tokens_refill (b.refill nowMs) nowMs
  have hstill : ((b.refill nowMs).refill nowMs).tokens ≠ 0 := by
    intro hzero
    rw [hzero, UInt32.le_iff_toNat_le] at hkept
    rw [UInt32.lt_iff_toNat_lt] at hsome
    exact absurd hkept (not_le.mpr hsome)
  show ((b.refill nowMs).take nowMs).2 = true
  simp only [TokenBucket.take]
  rw [if_neg hstill]

theorem le_lastMs_refill (b : TokenBucket) (nowMs : UInt64) : nowMs ≤ (b.refill nowMs).lastMs := by
  have hlast : (b.refill nowMs).lastMs = max b.lastMs nowMs := by
    simp only [TokenBucket.refill]
    split_ifs <;> rfl
  rw [hlast, UInt64.le_iff_toNat_le, toNat_max]
  exact le_max_right _ _

theorem millitokens_refill_lt (b : TokenBucket) (nowMs : UInt64) :
    (b.refill nowMs).millitokens.toNat < 1000 := by
  simp only [TokenBucket.refill]
  split_ifs
  · exact Nat.zero_lt_of_lt (by decide : 0 < 1000)
  · exact Nat.zero_lt_of_lt (by decide : 0 < 1000)
  · rw [UInt64.toNat_mod]
    exact Nat.mod_lt _ (by decide)

theorem tokens_refill_again {b : TokenBucket} {nowMs : UInt64} (hlast : nowMs ≤ b.lastMs)
    (hmilli : b.millitokens.toNat < 1000) : (b.refill nowMs).tokens = b.tokens := by
  have helapsed : saturatingSub nowMs b.lastMs = 0 := by
    rw [← UInt64.toNat_inj, toNat_saturatingSub]
    exact Nat.sub_eq_zero_of_le (UInt64.le_iff_toNat_le.mp hlast)
  have hearned : saturatingMul 0 b.perSec.toUInt64 = 0 := by
    rw [← UInt64.toNat_inj]
    have hle := toNat_saturatingMul_le 0 b.perSec.toUInt64
    rw [UInt64.toNat_zero, Nat.zero_mul] at hle
    exact Nat.le_zero.mp hle
  have hwhole : b.millitokens / 1000 = 0 := by
    rw [← UInt64.toNat_inj, UInt64.toNat_div]
    exact Nat.div_eq_of_lt hmilli
  have hgained : saturatingAdd32 b.tokens (saturatingU32 0) = b.tokens := by
    have hle := toNat_saturatingAdd32_le b.tokens (saturatingU32 0)
    have hnone : (saturatingU32 0).toNat = 0 := rfl
    rw [hnone] at hle
    exact UInt32.le_antisymm (UInt32.le_iff_toNat_le.mpr hle) (le_saturatingAdd32 _ _)
  simp only [TokenBucket.refill, helapsed, hearned, UInt64.add_zero, hwhole, hgained]
  by_cases hfull : b.capacity ≤ b.tokens
  · rw [if_pos hfull]
  · rw [if_neg hfull]
    rw [UInt32.not_le, UInt32.lt_iff_toNat_lt] at hfull
    show min b.capacity b.tokens = b.tokens
    rw [← UInt32.toNat_inj, toNat_min32]
    exact min_eq_right hfull.le

theorem tokens_take_lt {b : TokenBucket} {nowMs : UInt64} (h : (b.take nowMs).2) :
    ((b.take nowMs).1.refill nowMs).tokens.toNat < (b.refill nowMs).tokens.toNat := by
  have htake : (b.take nowMs).1 =
      { b.refill nowMs with tokens := (b.refill nowMs).tokens - 1 } ∧
      (b.refill nowMs).tokens ≠ 0 := by
    simp only [TokenBucket.take] at h ⊢
    split_ifs at h ⊢ with hzero
    exact ⟨rfl, hzero⟩
  have hone : 1 ≤ (b.refill nowMs).tokens.toNat := by
    refine Nat.one_le_iff_ne_zero.mpr fun hzero => htake.2 ?_
    exact UInt32.toNat_inj.mp hzero
  have hspent : ((b.refill nowMs).tokens - 1).toNat = (b.refill nowMs).tokens.toNat - 1 :=
    UInt32.toNat_sub_of_le _ _ (UInt32.le_iff_toNat_le.mpr hone)
  have hagain : ((b.take nowMs).1.refill nowMs).tokens = (b.take nowMs).1.tokens := by
    rw [htake.1]
    exact tokens_refill_again (le_lastMs_refill b nowMs) (millitokens_refill_lt b nowMs)
  rw [hagain, htake.1]
  show ((b.refill nowMs).tokens - 1).toNat < _
  omega

/-- From an account to a later one at least `n` tokens were taken within the stretch. -/
def Spends (start stop : ℕ) (capacity perSec : UInt32) (n : ℕ) (b b' : TokenBucket) : Prop :=
  b.Sound capacity perSec →
    b'.Sound capacity perSec ∧ 1000 * n + b'.allowance start stop ≤ b.allowance start stop

theorem Spends.none (b : TokenBucket) : Spends start stop capacity perSec 0 b b :=
  fun hb => ⟨hb, (Nat.zero_add _).le⟩

theorem Spends.of_eq {b b' : TokenBucket} (h : b' = b) :
    Spends start stop capacity perSec 0 b b' := by
  rw [h]
  exact .none b

theorem Spends.trans {n n' : ℕ} {b b' b'' : TokenBucket}
    (h : Spends start stop capacity perSec n b b')
    (h' : Spends start stop capacity perSec n' b' b'') :
    Spends start stop capacity perSec (n + n') b b'' := by
  intro hb
  obtain ⟨hb', hle⟩ := h hb
  obtain ⟨hb'', hle'⟩ := h' hb'
  refine ⟨hb'', ?_⟩
  rw [Nat.mul_add]
  omega

theorem Spends.mono {n n' : ℕ} {b b' : TokenBucket} (hn : n' ≤ n)
    (h : Spends start stop capacity perSec n b b') : Spends start stop capacity perSec n' b b' := by
  intro hb
  obtain ⟨hb', hle⟩ := h hb
  exact ⟨hb', (Nat.add_le_add_right (Nat.mul_le_mul_left _ hn) _).trans hle⟩

theorem Spends.refill (b : TokenBucket) (hstart : start ≤ nowMs.toNat)
    (hstop : nowMs.toNat ≤ stop) : Spends start stop capacity perSec 0 b (b.refill nowMs) :=
  fun hb => ⟨hb.refill nowMs,
    (Nat.zero_add _).trans_le (b.allowance_refill hb.level hstart hstop)⟩

theorem Spends.take (b : TokenBucket) (hstart : start ≤ nowMs.toNat) (hstop : nowMs.toNat ≤ stop) :
    Spends start stop capacity perSec (b.take nowMs).2.toNat b (b.take nowMs).1 :=
  fun hb => ⟨hb.take nowMs, hb.allowance_take hstart hstop⟩

end JamStream.Session.TokenBucket
