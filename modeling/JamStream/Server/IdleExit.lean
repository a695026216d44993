import JamStream.Foundations.Runs

/-! The dead man's switch: elapsed session time read off two clocks, and the idle
countdown fed with it once a heartbeat. Durations are natural numbers. -/

namespace JamStream.Server
open Runs

/-- Whichever clock has seen more time; a wall clock behind the start has seen none. -/
def sessionElapsed (monotonic : ℕ) (wall : Option ℕ) : ℕ := wall.elim monotonic (max monotonic)

structure IdleExit where
  window : ℕ
  idleSince : Option ℕ
deriving DecidableEq

namespace IdleExit

/-- Armed from the start: nobody has to have joined. -/
def new (window : ℕ) : IdleExit := { window, idleSince := some 0 }

def observe (d : IdleExit) (now musicians : ℕ) : IdleExit × Bool :=
  if d.window = 0 then (d, false)
  else if 0 < musicians then ({ d with idleSince := none }, false)
  else ({ d with idleSince := some (d.idleSince.getD now) },
    d.window ≤ now - d.idleSince.getD now)

end IdleExit

structure Observation where
  monotonic : ℕ
  wall : Option ℕ
  musicians : ℕ
deriving DecidableEq

namespace Observation

def elapsed (o : Observation) : ℕ := sessionElapsed o.monotonic o.wall

def idle (o : Observation) : Bool := o.musicians = 0

theorem monotonic_le (o : Observation) : o.monotonic ≤ o.elapsed := by
  unfold elapsed sessionElapsed
  cases o.wall with
  | none => exact le_rfl
  | some wall => exact le_max_left _ _

end Observation

namespace IdleExit

def heartbeat (d : IdleExit) (o : Observation) : IdleExit × Bool := d.observe o.elapsed o.musicians

def after (window : ℕ) (seen : List Observation) : IdleExit :=
  run (fun d o => (d.heartbeat o).1) (new window) seen

def fires (window : ℕ) (seen : List Observation) (o : Observation) : Bool :=
  ((after window seen).heartbeat o).2

/-- The session time at which the present idle run began: nothing while a musician is
here, the start of the session while there has been none. -/
def began (seen : List Observation) : Option ℕ :=
  if seen.all Observation.idle then some 0
  else (seen.rtakeWhile Observation.idle).head?.map Observation.elapsed

/-- `o` ends a stretch of idle observations at least a window of monotonic time long. -/
def EndsStretch (window : ℕ) (seen : List Observation) (o : Observation) : Prop :=
  ∃ pre stretch first, seen ++ [o] = pre ++ stretch ∧ stretch.head? = some first ∧
    stretch.all Observation.idle ∧ first.monotonic + window ≤ o.monotonic

theorem began_concat_busy (seen : List Observation) {o : Observation} (h : o.idle = false) :
    began (seen ++ [o]) = none := by
  have hrun : (seen ++ [o]).rtakeWhile Observation.idle = [] :=
    List.rtakeWhile_concat_neg _ _ _ (Bool.eq_false_iff.mp h)
  unfold began
  rw [hrun, List.all_append, if_neg]
  · rfl
  · simp [h]

theorem began_concat_idle (seen : List Observation) {o : Observation} (h : o.idle) :
    began (seen ++ [o]) = some ((began seen).getD o.elapsed) := by
  have hrun : (seen ++ [o]).rtakeWhile Observation.idle =
      seen.rtakeWhile Observation.idle ++ [o] := List.rtakeWhile_concat_pos _ _ _ h
  have hall : (seen ++ [o]).all Observation.idle = seen.all Observation.idle := by
    simp [h]
  unfold began
  rw [hrun, hall]
  split_ifs
  · rfl
  · cases seen.rtakeWhile Observation.idle <;> rfl

theorem window_after (window : ℕ) (seen : List Observation) :
    (after window seen).window = window := by
  refine run_invariant (P := fun d : IdleExit => d.window = window) (fun d o hd => ?_) rfl seen
  show (d.observe o.elapsed o.musicians).1.window = window
  unfold observe
  split_ifs <;> exact hd

theorem idleSince_after {window : ℕ} (hwindow : window ≠ 0) (seen : List Observation) :
    (after window seen).idleSince = began seen := by
  induction seen using List.reverseRecOn with
  | nil => rfl
  | append_singleton seen o ih =>
    have hnext : after window (seen ++ [o]) = ((after window seen).heartbeat o).1 :=
      run_append _ _ _ _
    rw [hnext]
    unfold heartbeat observe
    rw [window_after, if_neg hwindow, ih]
    by_cases hidle : o.musicians = 0
    · rw [if_neg (by omega), began_concat_idle seen (decide_eq_true hidle)]
    · rw [if_pos (by omega), began_concat_busy seen (decide_eq_false hidle)]

theorem fires_iff {window : ℕ} {seen : List Observation} {o : Observation} (hidle : o.idle) :
    fires window seen o ↔
      0 < window ∧ ∀ start ∈ began (seen ++ [o]), start + window ≤ o.elapsed := by
  have hmusicians : ¬0 < o.musicians := by
    have hzero := of_decide_eq_true hidle
    omega
  unfold fires heartbeat observe
  rw [window_after, began_concat_idle seen hidle]
  by_cases hwindow : window = 0
  · rw [if_pos hwindow]
    exact ⟨fun h => absurd h Bool.false_ne_true, fun h => absurd hwindow h.1.ne'⟩
  · rw [if_neg hwindow, if_neg hmusicians, idleSince_after hwindow]
    simp only [decide_eq_true_eq, Option.mem_def, Option.some.injEq, forall_eq']
    omega

/-- A countdown that began with the wall clock no further than the monotonic one ends in
time, wherever the wall clock stands at the end. -/
theorem fires_of_level {window : ℕ} (hwindow : 0 < window) {seen : List Observation}
    {o : Observation} (hidle : o.idle)
    (hlevel : ∀ start ∈ began (seen ++ [o]), start + window ≤ o.monotonic) :
    fires window seen o :=
  (fires_iff hidle).mpr ⟨hwindow, fun start hstart => (hlevel start hstart).trans o.monotonic_le⟩

/-- Every long enough idle stretch ends with the switch firing, exactly when it is armed
and the clock further on has moved by a window since the idle run began. -/
theorem dead_mans_switch_iff (window : ℕ) (os : List Observation) :
    (∀ seen o rest, os = seen ++ o :: rest → EndsStretch window seen o → fires window seen o) ↔
      ∀ seen o rest, os = seen ++ o :: rest → EndsStretch window seen o →
        0 < window ∧ ∀ start ∈ began (seen ++ [o]), start + window ≤ o.elapsed := by
  refine forall₃_congr fun seen o rest => forall₂_congr fun _ hends => fires_iff ?_
  obtain ⟨pre, stretch, first, heq, hhead, hidle, -⟩ := hends
  -- the stretch ends at the observation the switch is asked about
  obtain ⟨front, z, rfl⟩ : ∃ front z, stretch = front ++ [z] := by
    rcases List.eq_nil_or_concat stretch with rfl | ⟨front, z, rfl⟩
    · exact absurd hhead.symm (Option.some_ne_none first)
    · exact ⟨front, z, List.concat_eq_append⟩
  rw [← List.append_assoc] at heq
  have hlast : o = z := List.singleton_injective (List.append_inj' heq rfl).2
  rw [hlast]
  exact List.all_eq_true.mp hidle z (List.mem_append_right _ (List.mem_singleton_self z))

/-- The last musician leaves while the wall clock is a thousand ahead, and it is set right
before the window has passed. -/
def steppedBack : List Observation :=
  [{ monotonic := 1, wall := some 1, musicians := 1 },
    { monotonic := 2, wall := some 1002, musicians := 0 },
    { monotonic := 12, wall := some 12, musicians := 0 }]

/-- The monotonic clock never falls over it, and the switch does not fire at its end. -/
theorem dead_mans_switch_stepped_back :
    ¬∀ (window : ℕ) (os : List Observation), os.Pairwise (fun a b => a.monotonic ≤ b.monotonic) →
      0 < window → ∀ seen o rest, os = seen ++ o :: rest → EndsStretch window seen o →
        fires window seen o := by
  intro h
  have hends : EndsStretch 10 (steppedBack.take 2) { monotonic := 12, wall := some 12, musicians := 0 } :=
    ⟨steppedBack.take 1, steppedBack.drop 1, { monotonic := 2, wall := some 1002, musicians := 0 },
      rfl, rfl, by decide, by decide⟩
  have hfires := h 10 steppedBack (by decide) (by decide) _ _ [] rfl hends
  exact absurd hfires (by decide)

end IdleExit
end JamStream.Server
