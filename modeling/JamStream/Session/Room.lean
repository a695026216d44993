import JamStream.Foundations.Runs

/-! What a room is for: members hold seats in a role, a role has room for so many,
a seat is taken with a key, and a key can be barred for good. The number of those in
the role that counts is announced whenever it may have moved. -/

namespace JamStream.Session
open Relation Runs

structure Seat (ρ κ : Type*) where
  role : ρ
  key : κ
  taken : Bool

@[ext] structure Room (ι ρ κ : Type*) where
  seats : ι → Option (Seat ρ κ)
  barred : Set κ
  noted : ℕ

namespace Room
variable {ι ρ κ : Type*}

def holders (r : Room ι ρ κ) (role : ρ) : Set ι :=
  {i | ∃ seat, r.seats i = some seat ∧ seat.taken ∧ seat.role = role}

noncomputable def count (r : Room ι ρ κ) (role : ρ) : ℕ := (r.holders role).ncard

theorem holders_subset (r : Room ι ρ κ) (role : ρ) :
    r.holders role ⊆ {i | (r.seats i).isSome} := by
  rintro i ⟨seat, hseat, -, -⟩
  exact Option.isSome_iff_exists.mpr ⟨seat, hseat⟩

theorem count_mono {r r' : Room ι ρ κ} {role : ρ} (hfinite : {i | (r.seats i).isSome}.Finite)
    (h : r'.holders role ⊆ r.holders role) : r'.count role ≤ r.count role :=
  Set.ncard_le_ncard h (hfinite.subset (r.holders_subset role))

def bar (r : Room ι ρ κ) (key : κ) : Room ι ρ κ := { r with barred := insert key r.barred }

noncomputable def note (band : ρ) (r : Room ι ρ κ) : Room ι ρ κ := { r with noted := r.count band }

structure Sound (cap : ρ → ℕ) (band : ρ) (r : Room ι ρ κ) : Prop where
  finite : {i | (r.seats i).isSome}.Finite
  fits : ∀ role, r.count role ≤ cap role
  noted : r.noted = r.count band

theorem Sound.of_holders {cap : ρ → ℕ} {band : ρ} {r r' : Room ι ρ κ} (h : Sound cap band r)
    (hseats : ∀ i, (r'.seats i).isSome → (r.seats i).isSome)
    (hholders : ∀ role, r'.holders role ⊆ r.holders role) : Sound cap band (note band r') where
  finite := h.finite.subset hseats
  fits role := (count_mono h.finite (hholders role)).trans (h.fits role)
  noted := rfl

variable [DecidableEq ι]

def sit (r : Room ι ρ κ) (i : ι) (seat : Seat ρ κ) : Room ι ρ κ :=
  { r with seats := Function.update r.seats i (some seat) }

def leave (r : Room ι ρ κ) (i : ι) : Room ι ρ κ :=
  { r with
    seats := Function.update r.seats i
      ((r.seats i).map fun seat => { seat with taken := false }) }

def vacate (r : Room ι ρ κ) (i : ι) : Room ι ρ κ :=
  { r with seats := Function.update r.seats i none }

/-- What can happen in a room where `cap` bounds each role, `band` is the role that
counts, and `issued i key` says that a key was handed out to a member. -/
inductive Step (cap : ρ → ℕ) (band : ρ) (issued : ι → κ → Prop) :
    Room ι ρ κ → Room ι ρ κ → Prop
  | enter (r : Room ι ρ κ) (i : ι) (seat : Seat ρ κ) (hissued : issued i seat.key)
      (hkey : seat.key ∉ r.barred) (hroom : (r.holders seat.role \ {i}).ncard < cap seat.role) :
      Step cap band issued r (note band (r.sit i seat))
  | leave (r : Room ι ρ κ) (is : List ι) :
      Step cap band issued r (note band (is.foldl Room.leave r))
  | evict (r : Room ι ρ κ) (i : ι) (seat : Seat ρ κ) (hseat : r.seats i = some seat) :
      Step cap band issued r (note band ((r.bar seat.key).vacate i))
  | bar (r : Room ι ρ κ) (key : κ)
      (hkey : ∀ i seat, r.seats i = some seat → seat.key ≠ key) :
      Step cap band issued r (r.bar key)

theorem sit_seats (r : Room ι ρ κ) (i j : ι) (seat : Seat ρ κ) :
    (r.sit i seat).seats j = if j = i then some seat else r.seats j :=
  Function.update_apply _ _ _ _

theorem leave_seats (r : Room ι ρ κ) (i j : ι) :
    (r.leave i).seats j =
      if j = i then (r.seats i).map fun seat => { seat with taken := false } else r.seats j :=
  Function.update_apply _ _ _ _

theorem vacate_seats (r : Room ι ρ κ) (i j : ι) :
    (r.vacate i).seats j = if j = i then none else r.seats j :=
  Function.update_apply _ _ _ _

theorem leave_seats_some {r : Room ι ρ κ} {i j : ι} {seat : Seat ρ κ}
    (h : (r.leave i).seats j = some seat) :
    ∃ old, r.seats j = some old ∧ old.role = seat.role ∧ old.key = seat.key ∧
      (seat.taken → old.taken) := by
  rw [leave_seats] at h
  split_ifs at h with hj
  · rw [hj]
    obtain ⟨old, hold, rfl⟩ := Option.map_eq_some_iff.mp h
    exact ⟨old, hold, rfl, rfl, fun h => absurd h Bool.false_ne_true⟩
  · exact ⟨seat, h, rfl, rfl, id⟩

theorem leaveAll_seats_some {r : Room ι ρ κ} {is : List ι} {j : ι} {seat : Seat ρ κ}
    (h : (is.foldl leave r).seats j = some seat) :
    ∃ old, r.seats j = some old ∧ old.role = seat.role ∧ old.key = seat.key ∧
      (seat.taken → old.taken) := by
  induction is generalizing r with
  | nil => exact ⟨seat, h, rfl, rfl, id⟩
  | cons i is ih =>
    obtain ⟨mid, hmid, hrole, hkey, htaken⟩ := ih h
    obtain ⟨old, hold, hrole', hkey', htaken'⟩ := leave_seats_some hmid
    exact ⟨old, hold, hrole'.trans hrole, hkey'.trans hkey, fun h => htaken' (htaken h)⟩

theorem leaveAll_barred (r : Room ι ρ κ) (is : List ι) :
    (is.foldl leave r).barred = r.barred := by
  induction is generalizing r with
  | nil => rfl
  | cons i is ih => exact ih (r.leave i)

variable {cap : ρ → ℕ} {band : ρ} {issued : ι → κ → Prop}

theorem Sound.step {r r' : Room ι ρ κ} (h : Sound cap band r) (hs : Step cap band issued r r') :
    Sound cap band r' := by
  cases hs with
  | enter i seat hissued hkey hroom =>
    refine ⟨?_, fun role => ?_, rfl⟩
    · refine (h.finite.insert i).subset ?_
      intro j hj
      by_cases hji : j = i
      · exact .inl hji
      · right
        change ((r.sit i seat).seats j).isSome = true at hj
        rwa [sit_seats, if_neg hji] at hj
    · change (r.sit i seat).count role ≤ cap role
      have hothers : (r.sit i seat).holders role \ {i} ⊆ r.holders role \ {i} := by
        rintro j ⟨⟨seat', hseat', htaken⟩, hj⟩
        rw [sit_seats, if_neg (show ¬j = i from hj)] at hseat'
        exact ⟨⟨seat', hseat', htaken⟩, hj⟩
      have hfin : (r.holders role).Finite := h.finite.subset (r.holders_subset role)
      by_cases hrole : seat.role = role
      · -- the newcomer's own role: the others were fewer than the cap
        subst hrole
        have hsub : (r.sit i seat).holders seat.role ⊆ insert i (r.holders seat.role \ {i}) := by
          intro j hj
          by_cases hji : j = i
          · exact .inl hji
          · exact .inr (hothers ⟨hj, hji⟩)
        calc (r.sit i seat).count seat.role
            ≤ (insert i (r.holders seat.role \ {i})).ncard :=
              Set.ncard_le_ncard hsub (hfin.sdiff.insert i)
          _ ≤ (r.holders seat.role \ {i}).ncard + 1 := Set.ncard_insert_le _ _
          _ ≤ cap seat.role := hroom
      · -- any other role can only have lost them
        have hsub : (r.sit i seat).holders role ⊆ r.holders role := by
          rintro j ⟨seat', hseat', htaken, hrole'⟩
          rw [sit_seats] at hseat'
          split_ifs at hseat' with hji
          · obtain rfl := Option.some.inj hseat'
            exact absurd hrole' hrole
          · exact ⟨seat', hseat', htaken, hrole'⟩
        exact (Set.ncard_le_ncard hsub hfin).trans (h.fits role)
  | leave is =>
    refine h.of_holders (fun j hj => ?_) ?_
    · obtain ⟨seat, hseat⟩ := Option.isSome_iff_exists.mp hj
      obtain ⟨old, hold, -⟩ := leaveAll_seats_some hseat
      exact Option.isSome_iff_exists.mpr ⟨old, hold⟩
    · rintro role j ⟨seat, hseat, htaken, hrole⟩
      obtain ⟨old, hold, hrole', -, htaken'⟩ := leaveAll_seats_some hseat
      exact ⟨old, hold, htaken' htaken, hrole'.trans hrole⟩
  | evict i seat hseat =>
    refine h.of_holders (fun j hj => ?_) ?_
    · change (((r.bar seat.key).vacate i).seats j).isSome = true at hj
      rw [vacate_seats] at hj
      split_ifs at hj with hji
      · exact absurd hj Bool.false_ne_true
      · exact hj
    · rintro role j ⟨seat', hseat', htaken⟩
      rw [vacate_seats] at hseat'
      split_ifs at hseat'
      exact ⟨seat', hseat', htaken⟩
  | bar key hkey => exact ⟨h.finite, h.fits, h.noted⟩

/-- When every key is handed out to one member, no barred key is in use, and each
key in the room is with its owner. -/
structure Kept (owner : κ → ι) (r : Room ι ρ κ) : Prop where
  owned : ∀ i seat, r.seats i = some seat → owner seat.key = i
  locked : ∀ i seat, r.seats i = some seat → seat.taken → seat.key ∉ r.barred

theorem Kept.step {owner : κ → ι} (howner : ∀ i key, issued i key → owner key = i)
    {r r' : Room ι ρ κ} (h : Kept owner r) (hs : Step cap band issued r r') : Kept owner r' := by
  cases hs with
  | enter i seat hissued hkey hroom =>
    refine ⟨fun j seat' hj => ?_, fun j seat' hj htaken => ?_⟩ <;>
      replace hj : (r.sit i seat).seats j = some seat' := hj <;>
      rw [sit_seats] at hj <;> split_ifs at hj with hji
    · obtain rfl := Option.some.inj hj
      rw [hji]
      exact howner i seat.key hissued
    · exact h.owned j seat' hj
    · obtain rfl := Option.some.inj hj
      exact hkey
    · exact h.locked j seat' hj htaken
  | leave is =>
    refine ⟨fun j seat hj => ?_, fun j seat hj htaken => ?_⟩ <;>
      obtain ⟨old, hold, -, hkey, htaken'⟩ := leaveAll_seats_some hj
    · rw [← hkey]
      exact h.owned j old hold
    · change seat.key ∉ (is.foldl leave r).barred
      rw [leaveAll_barred, ← hkey]
      exact h.locked j old hold (htaken' htaken)
  | evict i seat hseat =>
    refine ⟨fun j seat' hj => ?_, fun j seat' hj htaken => ?_⟩ <;>
      replace hj : ((r.bar seat.key).vacate i).seats j = some seat' := hj <;>
      rw [vacate_seats] at hj <;> split_ifs at hj with hji
    · exact h.owned j seat' hj
    · rintro (heq | hmem)
      · -- the barred key again would be its owner's, whose seat is gone
        exact hji ((h.owned j seat' hj).symm.trans (heq ▸ h.owned i seat hseat))
      · exact h.locked j seat' hj htaken hmem
  | bar key hkey =>
    refine ⟨h.owned, fun j seat hj htaken => ?_⟩
    rintro (heq | hmem)
    · exact hkey j seat hj heq
    · exact h.locked j seat hj htaken hmem

theorem barred_mono {r r' : Room ι ρ κ} (hs : Step cap band issued r r') :
    r.barred ⊆ r'.barred := by
  cases hs with
  | enter => exact subset_rfl
  | leave is => exact (leaveAll_barred r is).symm.subset
  | evict => exact Set.subset_insert _ _
  | bar => exact Set.subset_insert _ _

end Room
end JamStream.Session
