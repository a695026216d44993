import Mathlib

/-! Whether a counter climbs densely enough to be noticed: what turns the state on, how long it
stays, and what a counter that starts again does to it. What was observed is listed with the
latest first. -/

namespace JamStream.Client

structure Observation where
  now : ℕ
  total : ℕ
deriving DecidableEq

structure EpisodeWatch where
  count : ℕ
  window : ℕ
  prev : Option ℕ
  since : Option (ℕ × ℕ)
  last : Option ℕ
  active : Bool
deriving DecidableEq

namespace EpisodeWatch

def new (count window : ℕ) : EpisodeWatch :=
  { count, window, prev := none, since := none, last := none, active := false }

def hold (w : EpisodeWatch) (now : ℕ) : EpisodeWatch :=
  if w.last.any fun t => w.window ≤ now - t then { w with active := false } else w

def idle (w : EpisodeWatch) (now : ℕ) : EpisodeWatch :=
  if w.since.any fun s => w.window < now - s.1 then { w with since := none } else w

def build (w : EpisodeWatch) (now prev total : ℕ) : EpisodeWatch :=
  let since := w.since.getD (now, prev)
  if w.count ≤ total - since.2 then { w with active := true, since := none }
  else { w with since := some since }

def observe (w : EpisodeWatch) (o : Observation) : EpisodeWatch :=
  match w.prev with
  | none =>
    let w := { w with prev := some o.total }
    if w.active then w.hold o.now else w.idle o.now
  | some prev =>
    let w := { w with prev := some o.total }
    if o.total < prev then { w with since := none, last := none, active := false }
    else if prev < o.total then
      let w := { w with last := some o.now }
      if w.active then w.hold o.now else w.build o.now prev o.total
    else if w.active then w.hold o.now else w.idle o.now

def watched (count window : ℕ) (past : List Observation) : EpisodeWatch :=
  past.foldr (fun o w => w.observe o) (new count window)

end EpisodeWatch

/-- When the last increment was observed of a counter that has not started again since. -/
def lastFresh : List Observation → Option ℕ
  | o :: p :: past =>
    if o.total < p.total then none
    else if p.total < o.total then some o.now
    else lastFresh (p :: past)
  | _ => none

/-- By `o` there were so many increments of one counter, all of them observed no longer than a
window before it. -/
def Bunched (count window : ℕ) (o : Observation) : List Observation → Prop
  | q :: p :: past => p.total ≤ q.total ∧ o.now - q.now ≤ window ∧
      (count ≤ o.total - p.total ∨ Bunched count window o (p :: past))
  | _ => False

def Backward (o : Observation) (past : List Observation) : Prop :=
  ∃ p ∈ past.head?, o.total < p.total

/-- What a watch does at an observation: it turns on for increments that bunch up within one
window, stays on until a window without one, and begins again with its counter. -/
structure EpisodeRight (count window : ℕ) (o : Observation) (past : List Observation) : Prop where
  onset : (EpisodeWatch.watched count window past).active = false →
    ((EpisodeWatch.watched count window past).observe o).active = true →
      Bunched count window o (o :: past)
  held : (EpisodeWatch.watched count window past).active = true → ¬Backward o past →
    (((EpisodeWatch.watched count window past).observe o).active = true ↔
      ∀ t ∈ lastFresh (o :: past), o.now - t < window)
  reset : Backward o past → (EpisodeWatch.watched count window past).observe o =
    { EpisodeWatch.new count window with prev := some o.total }

/-- A fresh increment does not complete a run that began more than a window before, unless the
increments of the last window are enough by themselves. -/
def NotStale (count window : ℕ) (o : Observation) (past : List Observation) : Prop :=
  (EpisodeWatch.watched count window past).active = false →
  ∀ since ∈ (EpisodeWatch.watched count window past).since,
    (∃ p ∈ past.head?, p.total < o.total) → window < o.now - since.1 →
      count ≤ o.total - since.2 → Bunched count window o (o :: past)

/-- The run that builds began at a time, with the total at a base before it. -/
def Building (start base : ℕ) : List Observation → Prop
  | q :: p :: past => p.total ≤ q.total ∧
      ((q.now = start ∧ p.total = base) ∨ Building start base (p :: past))
  | _ => False

variable {count window : ℕ} {o : Observation} {past : List Observation}

def Ordered (past : List Observation) : Prop := past.Pairwise fun later earlier =>
  earlier.now ≤ later.now

theorem Building.start_le {start base : ℕ} (h : Building start base (o :: past))
    (hordered : Ordered (o :: past)) : start ≤ o.now := by
  induction past generalizing o with
  | nil => exact h.elim
  | cons p past ih =>
    rcases h.2 with ⟨hstart, -⟩ | hrest
    · exact hstart.ge
    · have hp := List.rel_of_pairwise_cons hordered List.mem_cons_self
      exact (ih hrest hordered.of_cons).trans hp

theorem Building.bunched {start base : ℕ} {q : Observation} (h : Building start base (q :: past))
    (hordered : Ordered (q :: past)) (hstart : o.now - start ≤ window)
    (hcount : count ≤ o.total - base) : Bunched count window o (q :: past) := by
  induction past generalizing q with
  | nil => exact h.elim
  | cons p past ih =>
    have hle := h.start_le hordered
    refine ⟨h.1, by omega, ?_⟩
    rcases h.2 with ⟨-, hbase⟩ | hrest
    · exact .inl (hbase ▸ hcount)
    · exact .inr (ih hrest hordered.of_cons)

structure EpisodeWatch.Tracks (w : EpisodeWatch) (count window : ℕ) (past : List Observation) :
    Prop where
  count : w.count = count
  window : w.window = window
  prev : w.prev = past.head?.map Observation.total
  since : ∀ s ∈ w.since, Building s.1 s.2 past
  last : w.last = lastFresh past

namespace EpisodeWatch
variable {w : EpisodeWatch}

theorem Tracks.quiet (h : w.Tracks count window past) (now : ℕ) :
    (if w.active then w.hold now else w.idle now).Tracks count window past := by
  unfold hold idle
  split_ifs with hactive hover hstale
  · exact { h with }
  · exact h
  · exact { h with since := nofun }
  · exact h

theorem Tracks.building {p : Observation} (h : w.Tracks count window (o :: p :: past))
    (hfresh : p.total < o.total) : Building (w.since.getD (o.now, p.total)).1
      (w.since.getD (o.now, p.total)).2 (o :: p :: past) := by
  rcases hs : w.since with _ | s
  · exact ⟨hfresh.le, .inl ⟨rfl, rfl⟩⟩
  · exact h.since s hs

theorem Tracks.build {p : Observation} (h : w.Tracks count window (o :: p :: past))
    (hfresh : p.total < o.total) :
    (w.build o.now p.total o.total).Tracks count window (o :: p :: past) := by
  have hbuilding := h.building hfresh
  unfold EpisodeWatch.build
  dsimp only
  split_ifs with hcount
  · exact { h with since := nofun }
  · exact { h with since := fun s hs => Option.some.inj hs ▸ hbuilding }

section observe
variable {p : Observation}

theorem observe_first (h : w.prev = none) (o : Observation) :
    w.observe o = if w.active then { w with prev := some o.total }.hold o.now
      else { w with prev := some o.total }.idle o.now := by
  rw [observe, h]

theorem observe_backward (h : w.prev = some p.total) (hback : o.total < p.total) :
    w.observe o = { w with prev := some o.total, since := none, last := none, active := false } := by
  rw [observe, h]
  exact if_pos hback

theorem observe_fresh (h : w.prev = some p.total) (hfresh : p.total < o.total) :
    w.observe o = if w.active then { w with prev := some o.total, last := some o.now }.hold o.now
      else { w with prev := some o.total, last := some o.now }.build o.now p.total o.total := by
  rw [observe, h]
  exact (if_neg hfresh.not_gt).trans (if_pos hfresh)

theorem observe_same (h : w.prev = some p.total) (hsame : o.total = p.total) :
    w.observe o = if w.active then { w with prev := some o.total }.hold o.now
      else { w with prev := some o.total }.idle o.now := by
  rw [observe, h]
  exact (if_neg hsame.not_lt).trans (if_neg hsame.not_gt)

theorem lastFresh_backward (h : o.total < p.total) : lastFresh (o :: p :: past) = none := if_pos h

theorem lastFresh_fresh (h : p.total < o.total) : lastFresh (o :: p :: past) = some o.now :=
  (if_neg h.not_gt).trans (if_pos h)

theorem lastFresh_same (h : o.total = p.total) :
    lastFresh (o :: p :: past) = lastFresh (p :: past) :=
  (if_neg h.not_lt).trans (if_neg h.not_gt)

theorem Tracks.note (h : w.Tracks count window (p :: past)) (hle : p.total ≤ o.total) :
    { w with prev := some o.total, last := lastFresh (o :: p :: past) }.Tracks count window
      (o :: p :: past) where
  count := h.count
  window := h.window
  prev := rfl
  since s hs := ⟨hle, .inr (h.since s hs)⟩
  last := rfl

theorem Tracks.observe (h : w.Tracks count window past) (o : Observation) :
    (w.observe o).Tracks count window (o :: past) := by
  rcases past with _ | ⟨p, past⟩
  · rw [observe_first h.prev]
    have hfirst : { w with prev := some o.total }.Tracks count window [o] :=
      { count := h.count, window := h.window, prev := rfl, last := h.last
        since := fun s hs => (h.since s hs).elim }
    exact hfirst.quiet o.now
  · rcases lt_trichotomy o.total p.total with hback | hsame | hfresh
    · rw [observe_backward h.prev hback]
      exact ⟨h.count, h.window, rfl, nofun, (lastFresh_backward hback).symm⟩
    · rw [observe_same h.prev hsame]
      have hnote := h.note hsame.ge
      rw [lastFresh_same hsame, ← h.last] at hnote
      exact hnote.quiet o.now
    · have hnote := h.note hfresh.le
      rw [lastFresh_fresh hfresh] at hnote
      rw [observe_fresh h.prev hfresh]
      have hquiet := hnote.quiet o.now
      by_cases hactive : w.active = true
      · rw [if_pos hactive] at hquiet ⊢
        exact hquiet
      · rw [if_neg hactive]
        exact hnote.build hfresh

end observe

theorem active_hold (w : EpisodeWatch) (h : w.active = true) (now : ℕ) :
    (w.hold now).active = true ↔ ∀ t ∈ w.last, now - t < w.window := by
  unfold hold
  split_ifs with hover
  · obtain ⟨t, ht, hquiet⟩ := Option.any_eq_true _ _ |>.mp hover
    refine iff_of_false not_false fun hall => ?_
    exact absurd (of_decide_eq_true hquiet) (not_le.mpr (hall t ht))
  · refine iff_of_true h fun t ht => ?_
    by_contra hquiet
    exact hover (Option.any_eq_true _ _ |>.mpr ⟨t, ht, decide_eq_true (not_lt.mp hquiet)⟩)

theorem active_idle (w : EpisodeWatch) (now : ℕ) : (w.idle now).active = w.active := by
  unfold idle
  split_ifs
  · rfl
  · rfl

theorem active_build (w : EpisodeWatch) (h : w.active = false) (now prev total : ℕ) :
    (w.build now prev total).active = true ↔
      w.count ≤ total - (w.since.getD (now, prev)).2 := by
  unfold build
  dsimp only
  split_ifs with hcount
  · exact iff_of_true rfl hcount
  · refine iff_of_false (fun hon => ?_) hcount
    have hoff : w.active = true := hon
    rw [h] at hoff
    cases hoff

theorem tracks_watched (count window : ℕ) (past : List Observation) :
    (watched count window past).Tracks count window past := by
  induction past with
  | nil => exact ⟨rfl, rfl, rfl, nofun, rfl⟩
  | cons o past ih => exact ih.observe o

end EpisodeWatch

section right
open EpisodeWatch

theorem held_right {w : EpisodeWatch} (h : w.Tracks count window past) (hactive : w.active = true)
    (hforward : ¬Backward o past) :
    (w.observe o).active = true ↔ ∀ t ∈ lastFresh (o :: past), o.now - t < window := by
  rcases past with _ | ⟨p, past⟩
  · rw [observe_first h.prev, if_pos hactive]
    refine (active_hold { w with prev := some o.total } hactive o.now).trans ?_
    show (∀ t ∈ w.last, o.now - t < w.window) ↔ _
    rw [h.last, h.window]
    rfl
  · rcases lt_trichotomy o.total p.total with hback | hsame | hfresh
    · exact absurd ⟨p, rfl, hback⟩ hforward
    · rw [observe_same h.prev hsame, if_pos hactive]
      refine (active_hold { w with prev := some o.total } hactive o.now).trans ?_
      show (∀ t ∈ w.last, o.now - t < w.window) ↔ _
      rw [h.last, h.window, lastFresh_same hsame]
    · rw [observe_fresh h.prev hfresh, if_pos hactive]
      have hhold := active_hold { w with prev := some o.total, last := some o.now } hactive o.now
      refine hhold.trans ?_
      show (∀ t ∈ some o.now, o.now - t < w.window) ↔ _
      rw [h.window, lastFresh_fresh hfresh]

theorem onset_iff {w : EpisodeWatch} (h : w.Tracks count window past) (hoff : w.active = false) :
    (w.observe o).active = true ↔ ∃ p ∈ past.head?, p.total < o.total ∧
      count ≤ o.total - (w.since.getD (o.now, p.total)).2 := by
  have hnot : ¬w.active = true := hoff ▸ Bool.false_ne_true
  rcases past with _ | ⟨p, past⟩
  · rw [observe_first h.prev, if_neg hnot, active_idle]
    exact iff_of_false hnot nofun
  · have honly : (∃ q ∈ (p :: past).head?, q.total < o.total ∧
        count ≤ o.total - (w.since.getD (o.now, q.total)).2) ↔ p.total < o.total ∧
          count ≤ o.total - (w.since.getD (o.now, p.total)).2 := by
      rw [List.head?_cons]
      exact ⟨fun ⟨q, hq, h⟩ => Option.some.inj hq ▸ h, fun h => ⟨p, rfl, h⟩⟩
    rw [honly]
    rcases lt_trichotomy o.total p.total with hback | hsame | hfresh
    · rw [observe_backward h.prev hback]
      exact iff_of_false Bool.false_ne_true fun h => absurd h.1 hback.not_gt
    · rw [observe_same h.prev hsame, if_neg hnot, active_idle]
      exact iff_of_false hnot fun h => absurd h.1 hsame.not_gt
    · rw [observe_fresh h.prev hfresh, if_neg hnot]
      have hbuild := active_build { w with prev := some o.total, last := some o.now } hoff o.now
        p.total o.total
      refine hbuild.trans ?_
      show w.count ≤ _ ↔ _
      rw [h.count, and_iff_right hfresh]

/-- When a watch does what it is for at an observation. -/
theorem episodeRight_iff (count window : ℕ) (o : Observation) (past : List Observation)
    (hordered : Ordered (o :: past)) :
    EpisodeRight count window o past ↔ NotStale count window o past := by
  have h := tracks_watched count window past
  constructor
  · -- a stale run that reaches the count would turn the watch on without a bunch
    intro hright hoff since hsince ⟨p, hp, hfresh⟩ _ hcount
    refine hright.onset hoff ((onset_iff h hoff).mpr ⟨p, hp, hfresh, ?_⟩)
    rw [hsince, Option.getD_some]
    exact hcount
  · intro hstale
    refine ⟨fun hoff hon => ?_, held_right h, ?_⟩
    · obtain ⟨p, hp, hfresh, hcount⟩ := (onset_iff h hoff).mp hon
      obtain ⟨rest, rfl⟩ := List.head?_eq_some_iff.mp hp
      rcases hs : (watched count window (p :: rest)).since with _ | s
      · rw [hs, Option.getD_none] at hcount
        exact ⟨hfresh.le, by omega, .inl hcount⟩
      · rw [hs, Option.getD_some] at hcount
        -- the run since `s` is the bunch, if it is still within the window
        by_cases hwindow : o.now - s.1 ≤ window
        · have hbuilding : Building s.1 s.2 (o :: p :: rest) := ⟨hfresh.le, .inr (h.since s hs)⟩
          exact hbuilding.bunched hordered hwindow hcount
        · exact hstale hoff s hs ⟨p, rfl, hfresh⟩ (not_le.mp hwindow) hcount
    · rintro ⟨p, hp, hback⟩
      obtain ⟨rest, rfl⟩ := List.head?_eq_some_iff.mp hp
      rw [observe_backward h.prev hback, h.count, h.window]
      rfl

end right

def slowDrip : List Observation := [⟨259200, 3⟩, ⟨172800, 2⟩, ⟨86400, 1⟩, ⟨0, 0⟩]

theorem episodeRight_drip : EpisodeRight 3 90 ⟨60, 3⟩ [⟨40, 2⟩, ⟨20, 1⟩, ⟨0, 0⟩] ↔
    NotStale 3 90 ⟨60, 3⟩ [⟨40, 2⟩, ⟨20, 1⟩, ⟨0, 0⟩] :=
  episodeRight_iff 3 90 ⟨60, 3⟩ [⟨40, 2⟩, ⟨20, 1⟩, ⟨0, 0⟩] (by unfold Ordered; decide)

theorem slowDrip_turns_on : (EpisodeWatch.watched 3 90 slowDrip).active = true ∧
    ¬EpisodeRight 3 90 ⟨259200, 3⟩ [⟨172800, 2⟩, ⟨86400, 1⟩, ⟨0, 0⟩] := by
  refine ⟨by decide, fun h => ?_⟩
  have hbunched := h.onset (by decide) (by decide)
  obtain ⟨-, -, hnow | ⟨-, hbefore, -⟩⟩ := hbunched
  · exact absurd hnow (by decide)
  · exact absurd hbefore (by decide)

end JamStream.Client
