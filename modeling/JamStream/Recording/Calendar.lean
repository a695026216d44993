import JamStream.Foundations.Gregorian
import JamStream.Recording.TakeNames

/-! The days of the clock as dates: the era computation against the calendar, one day after
another, and its steps within a machine word. -/

namespace JamStream.Recording
open Foundations Foundations.Gregorian

/-- The day 1970-01-01, counted from the first day of the year one. -/
def epochDay : ℤ := 719163

section checked

def i64 (x : ℤ) : Option ℤ := if -2 ^ 63 ≤ x ∧ x < 2 ^ 63 then some x else none

def u32 (x : ℤ) : Option ℕ := if 0 ≤ x ∧ x < 2 ^ 32 then some x.toNat else none

def checkedCivilFromDays (days : ℤ) : Option (ℤ × ℕ × ℕ) := do
  let z ← i64 (days + 719468)
  let era ← i64 (z / 146097)
  let doe ← i64 (z % 146097)
  let counted ← i64 (doe - doe / 1460)
  let counted ← i64 (counted + doe / 36524)
  let counted ← i64 (counted - doe / 146096)
  let yoe ← i64 (counted / 365)
  let before ← i64 (365 * yoe)
  let before ← i64 (before + yoe / 4)
  let before ← i64 (before - yoe / 100)
  let doy ← i64 (doe - before)
  let mp ← i64 (5 * doy)
  let mp ← i64 (mp + 2)
  let mp ← i64 (mp / 153)
  let start ← i64 (153 * mp)
  let start ← i64 (start + 2)
  let d ← i64 (doy - start / 5)
  let d ← i64 (d + 1)
  let d ← u32 d
  let m ← i64 (if mp < 10 then mp + 3 else mp - 9)
  let m ← u32 m
  let years ← i64 (era * 400)
  let y ← i64 (yoe + years)
  let y ← i64 (y + if m ≤ 2 then 1 else 0)
  pure (y, m, d)

end checked

section steps

/-- The last day of a year that starts in March is its 366th only where the year it ends in is a
leap year. -/
theorem leap_of_doy {doe yoe doy : ℤ} (h0 : 0 ≤ doe) (h1 : doe < 146097)
    (hyoe : yoe = (doe - doe / 1460 + doe / 36524 - doe / 146096) / 365)
    (hdoy : doy = doe - (365 * yoe + yoe / 4 - yoe / 100)) (hlast : doy = 365) :
    IsLeap (yoe + 1) := by
  obtain ⟨t, ht⟩ : ∃ t, t = doe % 1460 - doe / 1460 + doe / 36524 - doe / 146096 := ⟨_, rfl⟩
  have hbounds := shift_bounds h0 h1 ht
  have hyear := yoe_of_shift hyoe ht
  obtain ⟨hfour, hhundred⟩ := leap_of_shift hyear
  rw [shift_century h0 h1 ht (by clear hdoy hyoe; omega)] at hhundred
  clear hyoe
  have hlow : -101 ≤ t := by
    clear hdoy hlast hyear hfour hhundred
    omega
  have hcenturies : doe / 36524 = 0 ∨ doe / 36524 = 1 ∨ doe / 36524 = 2 ∨ doe / 36524 = 3 ∨
      doe / 36524 = 4 := by omega
  have hshift : doy = t - 365 * (t / 365) - t / 1460 := by
    clear hcenturies hlow hbounds
    omega
  have hback : t = -1 := by
    clear hcenturies hfour hhundred hyear hdoy ht h0 h1
    by_cases hneg : t < 0
    · have hquarter : t / 1460 = -1 := by omega
      have hyears : t / 365 = -1 := by omega
      omega
    · have hquarter : t / 1460 = 0 := by omega
      omega
  subst hback
  have hfirst : yoe + 1 = 4 * (doe / 1460) := by omega
  refine ⟨by omega, fun hcentury => ?_⟩
  -- the last day of a century falls into the one before it, but for the fourth
  obtain ⟨j, hj⟩ : ∃ j, doe / 1460 = 25 * j := ⟨doe / 1460 / 25, by omega⟩
  have hrange : j = 0 ∨ j = 1 ∨ j = 2 ∨ j = 3 ∨ j = 4 := by omega
  clear hyear hfour hhundred hdoy hlast hbounds
  rcases hcenturies with h | h | h | h | h
  all_goals
    rcases hrange with rfl | rfl | rfl | rfl | rfl <;> omega

theorem era_leap (era n : ℤ) : IsLeap (n + era * 400) ↔ IsLeap n := by
  unfold IsLeap
  omega

end steps

section date
variable {days : ℤ}

theorem civilFromDays_eq (days : ℤ) : ∃ era yoe doy mp : ℤ,
    days + 719468 = 146097 * era + (365 * yoe + yoe / 4 - yoe / 100 + doy) ∧
    0 ≤ yoe ∧ yoe ≤ 399 ∧ 0 ≤ doy ∧ doy ≤ 365 ∧ (doy = 365 → IsLeap (yoe + 1)) ∧
    mp = (5 * doy + 2) / 153 ∧
    civilFromDays days =
      (yoe + era * 400 + (if (if mp < 10 then mp + 3 else mp - 9).toNat ≤ 2 then 1 else 0),
        (if mp < 10 then mp + 3 else mp - 9).toNat, (doy - (153 * mp + 2) / 5 + 1).toNat) := by
  have hera := Int.mul_ediv_add_emod (days + 719468) 146097
  have h0 : 0 ≤ (days + 719468) % 146097 := Int.emod_nonneg _ (by decide)
  have h1 : (days + 719468) % 146097 < 146097 := Int.emod_lt_of_pos _ (by decide)
  obtain ⟨doe, hdoe⟩ : ∃ doe, doe = (days + 719468) % 146097 := ⟨_, rfl⟩
  rw [← hdoe] at hera h0 h1
  obtain ⟨yoe, hyoe⟩ : ∃ yoe, yoe = (doe - doe / 1460 + doe / 36524 - doe / 146096) / 365 := ⟨_, rfl⟩
  obtain ⟨doy, hdoy⟩ : ∃ doy, doy = doe - (365 * yoe + yoe / 4 - yoe / 100) := ⟨_, rfl⟩
  have hyears := yoe_bounds h0 h1 hyoe
  have hdays := doy_bounds h0 h1 hyoe hdoy
  refine ⟨(days + 719468) / 146097, yoe, doy, (5 * doy + 2) / 153, ?_, hyears.1, hyears.2, hdays.1,
    hdays.2, leap_of_doy h0 h1 hyoe hdoy, rfl, ?_⟩
  · omega
  · simp only [civilFromDays, ← hdoe, ← hyoe, ← hdoy]

theorem march_months (y : ℤ) (n : ℕ) (hn : n < 10) :
    daysBeforeMonth y (n + 3) = daysBeforeMonth y 3 + (153 * n + 2) / 5 ∧
      monthLength y (n + 3) = (153 * (n + 1) + 2) / 5 - (153 * n + 2) / 5 := by
  interval_cases n <;> simp [daysBeforeMonth, monthLength]

theorem daysBefore_march (y : ℤ) :
    daysBeforeYear y + (daysBeforeMonth y 3 : ℕ) = 365 * y + y / 4 - y / 100 + y / 400 - 306 := by
  by_cases hleap : IsLeap y
  · have hdays : daysBeforeMonth y 3 = 60 := by simp [daysBeforeMonth, monthLength, hleap]
    rw [hdays]
    unfold daysBeforeYear
    unfold IsLeap at hleap
    omega
  · have hdays : daysBeforeMonth y 3 = 59 := by simp [daysBeforeMonth, monthLength, hleap]
    rw [hdays]
    unfold daysBeforeYear
    unfold IsLeap at hleap
    omega

theorem day_of_line {doy : ℤ} {n : ℕ} (h0 : 153 * (n : ℤ) ≤ 5 * doy + 2)
    (h1 : 5 * doy + 2 < 153 * (n : ℤ) + 153) :
    1 ≤ (doy - (153 * n + 2) / 5 + 1).toNat ∧
      (doy - (153 * n + 2) / 5 + 1).toNat ≤ (153 * (n + 1) + 2) / 5 - (153 * n + 2) / 5 ∧
        (((153 * n + 2) / 5 : ℕ) : ℤ) + (doy - (153 * n + 2) / 5 + 1).toNat = doy + 1 := by
  have hcast : (153 * (n : ℤ) + 2) / 5 = ((153 * n + 2) / 5 : ℕ) := by push_cast; rfl
  have hstart := Nat.div_add_mod (153 * n + 2) 5
  have hnext := Nat.div_add_mod (153 * (n + 1) + 2) 5
  have hmod := Nat.mod_lt (153 * n + 2) (by decide : 5 > 0)
  have hmodNext := Nat.mod_lt (153 * (n + 1) + 2) (by decide : 5 > 0)
  rw [hcast]
  generalize (153 * n + 2) / 5 = start at *
  generalize (153 * (n + 1) + 2) / 5 = following at *
  omega

theorem civilFromDays_spec (days : ℤ) :
    Valid (civilFromDays days) ∧ dayNumber (civilFromDays days) = epochDay + days := by
  obtain ⟨era, yoe, doy, mp, hday, hy0, hy1, hd0, hd1, hleap, hmp, hdate⟩ := civilFromDays_eq days
  have hyear : 365 * (yoe + era * 400) + (yoe + era * 400) / 4 - (yoe + era * 400) / 100 +
      (yoe + era * 400) / 400 = 146097 * era + (365 * yoe + yoe / 4 - yoe / 100) := by omega
  have hlow : 0 ≤ mp := by omega
  by_cases hmarch : mp < 10
  · obtain ⟨n, rfl⟩ : ∃ n : ℕ, mp = n := ⟨mp.toNat, (Int.toNat_of_nonneg hlow).symm⟩
    have hn : n < 10 := by omega
    obtain ⟨hbefore, hlength⟩ := march_months (yoe + era * 400) n hn
    have hmonth : (n + 3 : ℤ).toNat = n + 3 := rfl
    rw [if_pos hmarch, hmonth, if_neg (by omega), add_zero] at hdate
    rw [hdate]
    have hmarchDays := daysBefore_march (yoe + era * 400)
    have hspan : 153 * (n : ℤ) ≤ 5 * doy + 2 ∧ 5 * doy + 2 < 153 * (n : ℤ) + 153 := by
      clear hmarchDays hyear hday hbefore hlength hdate
      omega
    obtain ⟨hfirst, hlast, hsum⟩ := day_of_line hspan.1 hspan.2
    generalize (doy - (153 * n + 2) / 5 + 1).toNat = d at *
    refine ⟨⟨Nat.le_add_left _ _, Nat.succ_le_of_lt (Nat.add_lt_add_right hn 2), hfirst, ?_⟩, ?_⟩
    · exact hlength.symm ▸ hlast
    · have hnumber : dayNumber (yoe + era * 400, n + 3, d) = daysBeforeYear (yoe + era * 400) +
          (daysBeforeMonth (yoe + era * 400) 3 : ℕ) + ((153 * n + 2) / 5 : ℕ) + d := by
        rw [dayNumber, hbefore, Nat.cast_add, ← add_assoc]
      rw [hnumber, hmarchDays, epochDay]
      omega
  · have hwinter : mp = 10 ∨ mp = 11 := by omega
    have hstart : daysBeforeYear (yoe + era * 400 + 1) = 365 * (yoe + era * 400) +
        (yoe + era * 400) / 4 - (yoe + era * 400) / 100 + (yoe + era * 400) / 400 := by
      rw [daysBeforeYear, add_sub_cancel_right]
    have hyears : ∀ m d : ℕ, dayNumber (yoe + era * 400 + 1, m, d) = 146097 * era +
        (365 * yoe + yoe / 4 - yoe / 100) + daysBeforeMonth (yoe + era * 400 + 1) m + d := by
      intro m d
      rw [dayNumber, hstart, hyear]
    rcases hwinter with rfl | rfl
    · have hjanuary : civilFromDays days = (yoe + era * 400 + 1, 1, (doy - 305).toNat) := by
        rw [hdate]
        refine Prod.ext rfl (Prod.ext rfl ?_)
        show (doy - 306 + 1).toNat = (doy - 305).toNat
        rw [sub_add]
        rfl
      have hspan : 306 ≤ doy ∧ doy ≤ 336 := by omega
      have hlength : monthLength (yoe + era * 400 + 1) 1 = 31 := by simp [monthLength]
      rw [hjanuary]
      refine ⟨⟨le_rfl, Nat.le_add_left 1 11, ?_, ?_⟩, ?_⟩
      · show 1 ≤ (doy - 305).toNat
        omega
      · rw [hlength]
        show (doy - 305).toNat ≤ 31
        omega
      · have hbefore : daysBeforeMonth (yoe + era * 400 + 1) 1 = 0 := rfl
        rw [hyears, hbefore, epochDay]
        omega
    · have hfebruary : civilFromDays days = (yoe + era * 400 + 1, 2, (doy - 336).toNat) := by
        rw [hdate]
        refine Prod.ext rfl (Prod.ext rfl ?_)
        show (doy - 337 + 1).toNat = (doy - 336).toNat
        rw [sub_add]
        rfl
      have hspan : 337 ≤ doy := by omega
      have hlength : doy - 336 ≤ (monthLength (yoe + era * 400 + 1) 2 : ℕ) := by
        have hsame : IsLeap (yoe + era * 400 + 1) ↔ IsLeap (yoe + 1) := by
          rw [add_right_comm]
          exact era_leap era (yoe + 1)
        by_cases hlast : doy = 365
        · have hlong : monthLength (yoe + era * 400 + 1) 2 = 29 :=
            (if_pos rfl).trans (if_pos (hsame.mpr (hleap hlast)))
          rw [hlong, hlast]
          rfl
        · have hshort : 28 ≤ monthLength (yoe + era * 400 + 1) 2 := by
            rw [monthLength, if_pos rfl]
            split_ifs <;> omega
          omega
      rw [hfebruary]
      refine ⟨⟨Nat.le_add_left 1 1, Nat.le_add_left 2 10, ?_, ?_⟩, ?_⟩
      · show 1 ≤ (doy - 336).toNat
        omega
      · exact Int.toNat_le.mpr hlength
      · have hbefore : daysBeforeMonth (yoe + era * 400 + 1) 2 = 31 := rfl
        rw [hyears, hbefore, epochDay]
        omega

theorem civilFromDays_next (days : ℤ) : civilFromDays (days + 1) = next (civilFromDays days) := by
  obtain ⟨hvalid, hnumber⟩ := civilFromDays_spec days
  obtain ⟨hvalid', hnumber'⟩ := civilFromDays_spec (days + 1)
  refine dayNumber_inj hvalid' (valid_next hvalid) ?_
  rw [hnumber', dayNumber_next hvalid, hnumber, add_assoc]

theorem civilFromDays_dayNumber {date : Date} (h : Valid date) :
    civilFromDays (dayNumber date - epochDay) = date := by
  obtain ⟨hvalid, hnumber⟩ := civilFromDays_spec (dayNumber date - epochDay)
  refine dayNumber_inj hvalid h ?_
  rw [hnumber, add_sub_cancel]

theorem noLater_civilFromDays {a b : ℤ} :
    NoLater (civilFromDays a) (civilFromDays b) ↔ a ≤ b := by
  obtain ⟨hvalidA, hnumberA⟩ := civilFromDays_spec a
  obtain ⟨hvalidB, hnumberB⟩ := civilFromDays_spec b
  rw [noLater_iff hvalidA hvalidB, hnumberA, hnumberB, add_le_add_iff_left]

end date

section words

theorem bind_i64 {β : Type} {x : ℤ} (h : -2 ^ 63 ≤ x ∧ x < 2 ^ 63) (f : ℤ → Option β) :
    (i64 x >>= f) = f x := by
  rw [i64, if_pos h]
  rfl

theorem bind_u32 {β : Type} {x : ℤ} (h : 0 ≤ x ∧ x < 2 ^ 32) (f : ℕ → Option β) :
    (u32 x >>= f) = f x.toNat := by
  rw [u32, if_pos h]
  rfl

theorem checkedCivilFromDays_eq {days : ℤ} (h0 : -2 ^ 62 ≤ days) (h1 : days < 2 ^ 62) :
    checkedCivilFromDays days = some (civilFromDays days) := by
  obtain ⟨era, hera⟩ : ∃ era, era = (days + 719468) / 146097 := ⟨_, rfl⟩
  obtain ⟨doe, hdoe⟩ : ∃ doe, doe = (days + 719468) % 146097 := ⟨_, rfl⟩
  obtain ⟨yoe, hyoe⟩ : ∃ yoe, yoe = (doe - doe / 1460 + doe / 36524 - doe / 146096) / 365 := ⟨_, rfl⟩
  obtain ⟨doy, hdoy⟩ : ∃ doy, doy = doe - (365 * yoe + yoe / 4 - yoe / 100) := ⟨_, rfl⟩
  obtain ⟨mp, hmp⟩ : ∃ mp, mp = (5 * doy + 2) / 153 := ⟨_, rfl⟩
  have hdate : civilFromDays days =
      (yoe + era * 400 + (if (if mp < 10 then mp + 3 else mp - 9).toNat ≤ 2 then 1 else 0),
        (if mp < 10 then mp + 3 else mp - 9).toNat, (doy - (153 * mp + 2) / 5 + 1).toNat) := by
    rw [hmp, hdoy, hyoe, hdoe, hera]
    rfl
  have hdoe0 : 0 ≤ doe := hdoe ▸ Int.emod_nonneg _ (by decide)
  have hdoe1 : doe < 146097 := hdoe ▸ Int.emod_lt_of_pos _ (by decide)
  have heras : -2 ^ 62 / 400 ≤ era ∧ era < 2 ^ 62 / 400 := by
    clear hdate hdoe hyoe hdoy hmp
    omega
  have hyears := yoe_bounds hdoe0 hdoe1 hyoe
  have hdays := doy_bounds hdoe0 hdoe1 hyoe hdoy
  rw [hdate, checkedCivilFromDays, bind_i64 (x := days + 719468) (by omega), ← hera,
    bind_i64 (x := era) (by omega), ← hdoe, bind_i64 (x := doe) (by omega)]
  clear hdate hera hdoe h0 h1
  rw [bind_i64 (x := doe - doe / 1460) (by omega),
    bind_i64 (x := doe - doe / 1460 + doe / 36524) (by omega),
    bind_i64 (x := doe - doe / 1460 + doe / 36524 - doe / 146096) (by omega), ← hyoe]
  clear hyoe
  rw [bind_i64 (x := yoe) (by omega), bind_i64 (x := 365 * yoe) (by omega),
    bind_i64 (x := 365 * yoe + yoe / 4) (by omega),
    bind_i64 (x := 365 * yoe + yoe / 4 - yoe / 100) (by omega), ← hdoy]
  clear hdoy
  have hmonth : 0 ≤ mp ∧ mp ≤ 11 := by omega
  have hspan : 153 * mp ≤ 5 * doy + 2 := by omega
  rw [bind_i64 (x := doy) (by omega), bind_i64 (x := 5 * doy) (by omega),
    bind_i64 (x := 5 * doy + 2) (by omega), ← hmp]
  clear hmp
  have hm : 0 ≤ (if mp < 10 then mp + 3 else mp - 9) ∧
      (if mp < 10 then mp + 3 else mp - 9) < 2 ^ 32 := by
    split_ifs <;> omega
  rw [bind_i64 (x := mp) (by omega), bind_i64 (x := 153 * mp) (by omega),
    bind_i64 (x := 153 * mp + 2) (by omega), bind_i64 (x := doy - (153 * mp + 2) / 5) (by omega),
    bind_i64 (x := doy - (153 * mp + 2) / 5 + 1) (by omega), bind_u32 (by omega),
    bind_i64 (x := if mp < 10 then mp + 3 else mp - 9) (by omega), bind_u32 hm,
    bind_i64 (x := era * 400) (by omega),
    bind_i64 (x := yoe + era * 400) (by omega)]
  generalize (if mp < 10 then mp + 3 else mp - 9).toNat = m
  have hlast : 0 ≤ (if m ≤ 2 then 1 else 0 : ℤ) ∧ (if m ≤ 2 then 1 else 0 : ℤ) ≤ 1 := by
    split_ifs <;> omega
  rw [bind_i64 (by omega)]
  rfl

end words

/-- The calendar is right on every day: the epoch is the first of January 1970, and each day has
the date behind the one before it. A date is that of one day, and every date between two is that
of a day between theirs; no step on the way leaves its machine word. -/
theorem calendar_right :
    civilFromDays 0 = (1970, 1, 1) ∧
    (∀ days, Valid (civilFromDays days) ∧ civilFromDays (days + 1) = next (civilFromDays days)) ∧
    Function.Injective civilFromDays ∧
    (∀ lo hi date, Valid date → NoLater (civilFromDays lo) date → NoLater date (civilFromDays hi) →
      ∃ days, lo ≤ days ∧ days ≤ hi ∧ civilFromDays days = date) ∧
    ∀ secs : ℤ, -2 ^ 63 ≤ secs → secs < 2 ^ 63 →
      checkedCivilFromDays (secs / 86400) = some (civilFromDays (secs / 86400)) := by
  refine ⟨by decide, fun days => ⟨(civilFromDays_spec days).1, civilFromDays_next days⟩,
    civilFromDays_injective, fun lo hi date hvalid hlo hhi => ?_, fun secs h0 h1 => ?_⟩
  · have hdate := civilFromDays_dayNumber hvalid
    refine ⟨dayNumber date - epochDay, ?_, ?_, hdate⟩
    · refine noLater_civilFromDays.mp ?_
      rwa [hdate]
    · refine noLater_civilFromDays.mp ?_
      rwa [hdate]
  · exact checkedCivilFromDays_eq (by omega) (by omega)

end JamStream.Recording
