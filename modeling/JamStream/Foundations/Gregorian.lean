import Mathlib

/-! The Gregorian calendar without beginning or end: which dates there are, which follows which,
and their numbers, counted from the first day of the year one. -/

namespace JamStream.Foundations.Gregorian

abbrev Date := ℤ × ℕ × ℕ

def IsLeap (y : ℤ) : Prop := y % 4 = 0 ∧ (y % 100 = 0 → y % 400 = 0)

instance (y : ℤ) : Decidable (IsLeap y) := inferInstanceAs (Decidable (_ ∧ _))

def monthLength (y : ℤ) (m : ℕ) : ℕ :=
  if m = 2 then (if IsLeap y then 29 else 28)
  else if m = 4 ∨ m = 6 ∨ m = 9 ∨ m = 11 then 30
  else 31

structure Valid (date : Date) : Prop where
  month_pos : 1 ≤ date.2.1
  month_le : date.2.1 ≤ 12
  day_pos : 1 ≤ date.2.2
  day_le : date.2.2 ≤ monthLength date.1 date.2.1

def next (date : Date) : Date :=
  if date.2.2 < monthLength date.1 date.2.1 then (date.1, date.2.1, date.2.2 + 1)
  else if date.2.1 < 12 then (date.1, date.2.1 + 1, 1)
  else (date.1 + 1, 1, 1)

/-- Of two dates the first is not the later one. -/
def NoLater (a b : Date) : Prop :=
  a.1 < b.1 ∨ a.1 = b.1 ∧ (a.2.1 < b.2.1 ∨ a.2.1 = b.2.1 ∧ a.2.2 ≤ b.2.2)

def daysBeforeYear (y : ℤ) : ℤ := 365 * (y - 1) + (y - 1) / 4 - (y - 1) / 100 + (y - 1) / 400

def daysBeforeMonth (y : ℤ) : ℕ → ℕ
  | 0 => 0
  | m + 1 => daysBeforeMonth y m + if m = 0 then 0 else monthLength y m

def dayNumber (date : Date) : ℤ :=
  daysBeforeYear date.1 + daysBeforeMonth date.1 date.2.1 + date.2.2

variable {y y' : ℤ} {m m' : ℕ} {a b : Date}

theorem daysBeforeMonth_succ (hm : 1 ≤ m) :
    daysBeforeMonth y (m + 1) = daysBeforeMonth y m + monthLength y m := by
  rw [daysBeforeMonth, if_neg (Nat.one_le_iff_ne_zero.mp hm)]

theorem daysBeforeMonth_mono (y : ℤ) : Monotone (daysBeforeMonth y) :=
  monotone_nat_of_le_succ fun _ => Nat.le_add_right _ _

theorem daysBeforeYear_mono (h : y ≤ y') : daysBeforeYear y ≤ daysBeforeYear y' := by
  unfold daysBeforeYear
  omega

theorem daysBeforeYear_succ (y : ℤ) :
    daysBeforeYear (y + 1) = daysBeforeYear y + (daysBeforeMonth y 13 : ℕ) := by
  unfold daysBeforeYear
  by_cases hleap : IsLeap y
  · have hdays : daysBeforeMonth y 13 = 366 := by
      simp [daysBeforeMonth, monthLength, hleap]
    rw [hdays]
    unfold IsLeap at hleap
    omega
  · have hdays : daysBeforeMonth y 13 = 365 := by
      simp [daysBeforeMonth, monthLength, hleap]
    rw [hdays]
    unfold IsLeap at hleap
    omega

theorem dayNumber_next (h : Valid a) : dayNumber (next a) = dayNumber a + 1 := by
  obtain ⟨y, m, d⟩ := a
  have hm : 1 ≤ m := h.month_pos
  have hd : d ≤ monthLength y m := h.day_le
  have hsucc := daysBeforeMonth_succ (y := y) hm
  unfold next dayNumber
  dsimp only
  by_cases hlast : d < monthLength y m
  · rw [if_pos hlast]
    push_cast
    ring
  · rw [if_neg hlast]
    by_cases hyear : m < 12
    · rw [if_pos hyear, hsucc]
      push_cast
      omega
    · have htwelve : m = 12 := le_antisymm h.month_le (Nat.le_of_not_lt hyear)
      subst htwelve
      have hfirst : daysBeforeMonth (y + 1) 1 = 0 := rfl
      rw [if_neg hyear, daysBeforeYear_succ, hsucc, hfirst]
      push_cast
      omega

theorem dayNumber_bounds (h : Valid a) :
    daysBeforeYear a.1 < dayNumber a ∧ dayNumber a ≤ daysBeforeYear (a.1 + 1) := by
  have hday := h.day_pos
  have hlast := h.day_le
  have hsucc := daysBeforeMonth_succ (y := a.1) h.month_pos
  have hmono := daysBeforeMonth_mono a.1 (Nat.succ_le_succ h.month_le)
  rw [daysBeforeYear_succ]
  unfold dayNumber
  constructor
  · omega
  · have hmonths : daysBeforeMonth a.1 (a.2.1 + 1) ≤ daysBeforeMonth a.1 13 := hmono
    omega

theorem dayNumber_lt_of_year (ha : Valid a) (hb : Valid b) (h : a.1 < b.1) :
    dayNumber a < dayNumber b :=
  (dayNumber_bounds ha).2.trans_lt ((daysBeforeYear_mono h).trans_lt (dayNumber_bounds hb).1)

theorem dayNumber_lt_of_month (ha : Valid a) (hb : Valid b) (hyear : a.1 = b.1)
    (h : a.2.1 < b.2.1) : dayNumber a < dayNumber b := by
  have hlast := ha.day_le
  have hday := hb.day_pos
  have hsucc := daysBeforeMonth_succ (y := a.1) ha.month_pos
  have hmono := daysBeforeMonth_mono a.1 (Nat.succ_le_of_lt h)
  have hmonths : daysBeforeMonth a.1 (a.2.1 + 1) ≤ daysBeforeMonth a.1 b.2.1 := hmono
  unfold dayNumber
  rw [← hyear]
  omega

theorem noLater_iff (ha : Valid a) (hb : Valid b) : NoLater a b ↔ dayNumber a ≤ dayNumber b := by
  rcases lt_trichotomy a.1 b.1 with hyear | hyear | hyear
  · exact iff_of_true (.inl hyear) (dayNumber_lt_of_year ha hb hyear).le
  · rcases lt_trichotomy a.2.1 b.2.1 with hmonth | hmonth | hmonth
    · exact iff_of_true (.inr ⟨hyear, .inl hmonth⟩) (dayNumber_lt_of_month ha hb hyear hmonth).le
    · unfold NoLater dayNumber
      rw [hyear, hmonth]
      omega
    · have hlt := dayNumber_lt_of_month hb ha hyear.symm hmonth
      refine iff_of_false ?_ (not_le.mpr hlt)
      unfold NoLater
      omega
  · have hlt := dayNumber_lt_of_year hb ha hyear
    refine iff_of_false ?_ (not_le.mpr hlt)
    unfold NoLater
    omega

theorem noLater_antisymm (hab : NoLater a b) (hba : NoLater b a) : a = b := by
  unfold NoLater at hab hba
  refine Prod.ext ?_ (Prod.ext ?_ ?_)
  · omega
  · omega
  · omega

theorem dayNumber_inj (ha : Valid a) (hb : Valid b) (h : dayNumber a = dayNumber b) : a = b :=
  noLater_antisymm ((noLater_iff ha hb).mpr h.le) ((noLater_iff hb ha).mpr h.ge)

theorem monthLength_pos (y : ℤ) (m : ℕ) : 1 ≤ monthLength y m := by
  unfold monthLength
  split_ifs <;> omega

theorem valid_next (h : Valid a) : Valid (next a) := by
  unfold next
  split_ifs with hday hmonth
  · exact ⟨h.month_pos, h.month_le, Nat.le_add_left _ _, hday⟩
  · exact ⟨Nat.le_add_left _ _, hmonth, le_rfl, monthLength_pos _ _⟩
  · exact ⟨le_rfl, Nat.le_add_left 1 11, le_rfl, monthLength_pos _ _⟩

end JamStream.Foundations.Gregorian
