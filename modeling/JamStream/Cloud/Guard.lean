import JamStream.Cloud.CloudInit
import JamStream.Foundations.Runs

/-! The dead man's switch of a session's machine: a script run again and again, its state in
files. All times are in seconds of uptime. The time a file was touched at is only compared. -/

namespace JamStream.Cloud.Guard
open Runs

def uploadDeferCeilingSecs : ℤ := 600

abbrev Stamp := Option ℤ

/-- The files a run leaves for the next one: `guard-stamp`, `guard-active-up` and
`guard-defer-up`. -/
structure Files where
  stamp : Option Stamp
  activeUp : Option ℕ
  deferUp : Option ℕ
deriving DecidableEq

/-- What a run finds: the uptime, the activity file, and whether an upload marker is there. -/
structure Sight where
  up : ℕ
  stamp : Stamp
  uploads : Bool
deriving DecidableEq

/-- A file that is not there reads as no stamp. -/
def Files.note (g : Files) (s : Sight) : Files :=
  if s.stamp ≠ g.stamp.getD none then { g with stamp := some s.stamp, activeUp := some s.up }
  else g

def Files.idle (g : Files) (s : Sight) : ℤ := s.up - (g.activeUp.getD 0 : ℕ)

/-- The cap is the reason given where both are one. -/
def reason (cfg : BootConfig) (idle : ℤ) (up : ℕ) : Option String :=
  if cfg.maxSecs ≤ up then some "max session duration reached"
  else if cfg.idleSecs ≤ idle then some ("idle for " ++ toString idle ++ "s")
  else none

/-- One run: the files it leaves, and what it self-destructs for. -/
def runGuard (cfg : BootConfig) (g : Files) (s : Sight) : Files × Option String :=
  let g := g.note s
  match reason cfg (g.idle s) s.up with
  | none => ({ g with deferUp := none }, none)
  | some reason =>
    if s.uploads then
      let since := g.deferUp.getD s.up
      let deferred : ℤ := s.up - since
      ({ g with deferUp := some since },
        if deferred < uploadDeferCeilingSecs then none
        else some (reason ++ "; upload still in flight after " ++ toString deferred ++
          "s, abandoning it to the lifecycle cleanup rule"))
    else (g, some reason)

def step (cfg : BootConfig) (g : Files) (s : Sight) : Files := (runGuard cfg g s).1

def boot : Files := { stamp := none, activeUp := none, deferUp := none }

def outcomes (cfg : BootConfig) (g : Files) : List Sight → List (Option String)
  | [] => []
  | s :: rest => (runGuard cfg g s).2 :: outcomes cfg (step cfg g s) rest

variable {cfg : BootConfig} {g : Files} {s first : Sight} {earlier later : List Sight}

/-- The files tell of the first of the latest runs that all found one stamp, or that none was
ever found. -/
inductive Tracks (runs : List Sight) (g : Files) : Prop
  | never (hstamp : g.stamp = none) (hactive : g.activeUp = none)
      (hall : ∀ s ∈ runs, s.stamp = none)
  | since (before : List Sight) (first : Sight) (rest : List Sight)
      (hruns : runs = before ++ first :: rest) (hstamp : g.stamp = some first.stamp)
      (hactive : g.activeUp = some first.up) (hall : ∀ s ∈ rest, s.stamp = first.stamp)

theorem Tracks.note (h : Tracks earlier g) (s : Sight) : Tracks (earlier ++ [s]) (g.note s) := by
  unfold Files.note
  split_ifs with hchanged
  · exact .since earlier s [] rfl rfl rfl fun _ hin => absurd hin List.not_mem_nil
  · rw [not_not] at hchanged
    cases h with
    | never hstamp hactive hall =>
      refine .never hstamp hactive (List.forall_mem_append.mpr ⟨hall, ?_⟩)
      rw [hstamp] at hchanged
      exact List.forall_mem_singleton.mpr hchanged
    | since before first rest hruns hstamp hactive hall =>
      refine .since before first (rest ++ [s]) ?_ hstamp hactive
        (List.forall_mem_append.mpr ⟨hall, ?_⟩)
      · rw [hruns, List.append_assoc, List.cons_append]
      · rw [hstamp] at hchanged
        exact List.forall_mem_singleton.mpr hchanged

theorem runGuard_files (cfg : BootConfig) (g : Files) (s : Sight) :
    (runGuard cfg g s).1 = { g.note s with deferUp := (runGuard cfg g s).1.deferUp } := by
  simp only [runGuard]
  split
  · rfl
  · split_ifs <;> rfl

theorem Tracks.of_deferUp {runs : List Sight} (h : Tracks runs g) (deferUp : Option ℕ) :
    Tracks runs { g with deferUp } := by
  cases h with
  | never hstamp hactive hall => exact .never hstamp hactive hall
  | since before first rest hruns hstamp hactive hall =>
    exact .since before first rest hruns hstamp hactive hall

theorem Tracks.step (h : Tracks earlier g) (s : Sight) :
    Tracks (earlier ++ [s]) (step cfg g s) := by
  unfold Guard.step
  rw [runGuard_files]
  exact (h.note s).of_deferUp _

theorem tracks_run (cfg : BootConfig) (runs : List Sight) : Tracks runs (run (step cfg) boot runs) := by
  induction runs using List.reverseRecOn with
  | nil => exact .never rfl rfl fun _ hin => absurd hin List.not_mem_nil
  | append_singleton earlier s ih =>
    rw [run_append]
    exact ih.step s

theorem reason_of_destructs (h : (runGuard cfg g s).2.isSome) :
    (reason cfg ((g.note s).idle s) s.up).isSome := by
  by_contra hnone
  rw [Option.not_isSome_iff_eq_none] at hnone
  simp only [runGuard, hnone] at h
  exact Bool.false_ne_true h

theorem idle_of_reason {idle : ℤ} {up : ℕ} (hcap : up < cfg.maxSecs)
    (h : (reason cfg idle up).isSome) : cfg.idleSecs ≤ idle := by
  unfold reason at h
  rw [if_neg (Nat.not_le.mpr hcap)] at h
  by_contra hactive
  rw [if_neg hactive] at h
  exact Bool.false_ne_true h

/-- Below the cap, a machine goes when the stamp has not changed for an idle window, or there
never was one. -/
theorem idle_of_destructs {earlier : List Sight} {s : Sight} (hcap : s.up < cfg.maxSecs)
    (h : (runGuard cfg (run (step cfg) boot earlier) s).2.isSome) :
    (∃ before first rest, earlier ++ [s] = before ++ first :: rest ∧
      (∀ w ∈ first :: rest, w.stamp = s.stamp) ∧ first.up + cfg.idleSecs ≤ s.up) ∨
    (∀ w ∈ earlier ++ [s], w.stamp = none) ∧ cfg.idleSecs ≤ s.up := by
  have hidle := idle_of_reason hcap (reason_of_destructs h)
  have htracks := (tracks_run cfg earlier).note s
  generalize (run (step cfg) boot earlier).note s = noted at hidle htracks
  unfold Files.idle at hidle
  cases htracks with
  | never hstamp hactive hall =>
    rw [hactive, Option.getD_none] at hidle
    exact Or.inr ⟨hall, by omega⟩
  | since before first rest hruns hstamp hactive hall =>
    rw [hactive, Option.getD_some] at hidle
    refine Or.inl ⟨before, first, rest, hruns, ?_, by omega⟩
    -- this run is one of those that found the stamp
    have hlast : s ∈ first :: rest := by
      have hend := congrArg List.getLast? hruns
      rw [List.getLast?_append_cons, List.getLast?_append_cons] at hend
      exact List.mem_of_getLast? hend.symm
    have hsame : s.stamp = first.stamp := by
      rcases List.mem_cons.mp hlast with rfl | hin
      · rfl
      · exact hall s hin
    rw [hsame]
    exact List.forall_mem_cons.mpr ⟨rfl, hall⟩

theorem deferUp_note (g : Files) (s : Sight) : (g.note s).deferUp = g.deferUp := by
  unfold Files.note
  split_ifs
  · rfl
  · rfl

theorem deferUp_step {d : ℕ} (h : (step cfg g s).deferUp = some d) :
    g.deferUp = some d ∨ d = s.up := by
  have hnoted := deferUp_note g s
  simp only [step, runGuard] at h
  split at h
  · cases h
  · by_cases huploads : s.uploads
    · rw [if_pos huploads] at h
      have hsince : (g.note s).deferUp.getD s.up = d := Option.some.inj h
      rw [hnoted] at hsince
      cases hold : g.deferUp with
      | none =>
        rw [hold, Option.getD_none] at hsince
        exact Or.inr hsince.symm
      | some since =>
        rw [hold, Option.getD_some] at hsince
        exact Or.inl (congrArg some hsince)
    · rw [if_neg huploads] at h
      exact Or.inl (hnoted.symm.trans h)

theorem deferUp_run {d : ℕ} {runs : List Sight}
    (h : (run (step cfg) boot runs).deferUp = some d) : ∃ w ∈ runs, d = w.up := by
  induction runs using List.reverseRecOn with
  | nil => cases h
  | append_singleton earlier s ih =>
    rw [run_append] at h
    rcases deferUp_step h with hbefore | hnow
    · obtain ⟨w, hw, hup⟩ := ih hbefore
      exact ⟨w, List.mem_append_left _ hw, hup⟩
    · exact ⟨s, List.mem_append_right _ (List.mem_singleton.mpr rfl), hnow⟩

theorem over_cap (hcap : cfg.maxSecs ≤ s.up) :
    (runGuard cfg g s).2.isSome ∨
      (step cfg g s).deferUp = some (g.deferUp.getD s.up) ∧
        (s.up : ℤ) - (g.deferUp.getD s.up : ℕ) < uploadDeferCeilingSecs := by
  have hnoted := deferUp_note g s
  have hreason : reason cfg ((g.note s).idle s) s.up = some "max session duration reached" :=
    if_pos hcap
  simp only [step, runGuard, hreason, hnoted]
  split_ifs with huploads hceiling
  · exact Or.inr ⟨rfl, hceiling⟩
  · exact Or.inl rfl
  · exact Or.inl rfl

theorem outcomes_of_deferred {d : ℕ} {last : Sight} (hd : g.deferUp = some d)
    (hcap : ∀ s ∈ later ++ [last], cfg.maxSecs ≤ s.up)
    (hlast : d + uploadDeferCeilingSecs ≤ last.up) :
    ∃ o ∈ outcomes cfg g (later ++ [last]), o.isSome := by
  induction later generalizing g with
  | nil =>
    refine ⟨_, List.mem_cons_self, ?_⟩
    rcases over_cap (g := g) (hcap last (List.mem_singleton.mpr rfl)) with hgoes | ⟨-, hshort⟩
    · exact hgoes
    · rw [hd, Option.getD_some] at hshort
      omega
  | cons s later ih =>
    obtain ⟨hs, hrest⟩ := List.forall_mem_cons.mp hcap
    rcases over_cap (g := g) hs with hgoes | ⟨hdefer, -⟩
    · exact ⟨_, List.mem_cons_self, hgoes⟩
    · rw [hd, Option.getD_some] at hdefer
      obtain ⟨o, ho, hsome⟩ := ih hdefer hrest
      exact ⟨o, List.mem_cons_of_mem _ ho, hsome⟩

theorem destructs_past_ceiling {first last : Sight}
    (hups : (earlier ++ first :: later ++ [last]).Pairwise fun a b => a.up ≤ b.up)
    (hcap : cfg.maxSecs ≤ first.up) (hlast : first.up + uploadDeferCeilingSecs ≤ last.up) :
    ∃ o ∈ outcomes cfg (run (step cfg) boot earlier) (first :: later ++ [last]), o.isSome := by
  rw [List.append_assoc, List.pairwise_append] at hups
  obtain ⟨-, hups, hbefore⟩ := hups
  have hover : ∀ s ∈ later ++ [last], cfg.maxSecs ≤ s.up := fun s hs =>
    hcap.trans ((List.pairwise_cons.mp hups).1 s hs)
  rcases over_cap (g := run (step cfg) boot earlier) hcap with hgoes | ⟨hdefer, -⟩
  · exact ⟨_, List.mem_cons_self, hgoes⟩
  · have hsince : (run (step cfg) boot earlier).deferUp.getD first.up ≤ first.up := by
      cases hold : (run (step cfg) boot earlier).deferUp with
      | none => exact Nat.le_refl _
      | some d =>
        obtain ⟨w, hw, rfl⟩ := deferUp_run hold
        exact hbefore w hw first (List.mem_cons_self ..)
    obtain ⟨o, ho, hsome⟩ := outcomes_of_deferred hdefer hover (by omega)
    exact ⟨o, List.mem_cons_of_mem _ ho, hsome⟩

/-- Below its cap a machine goes only behind an idle window in which every run found one stamp,
or when there never was one. Over its cap it goes, uploads or not, by the run that is the ceiling
behind the first one over the cap. -/
theorem guard_sound (cfg : BootConfig) :
    (∀ earlier s, s.up < cfg.maxSecs →
      (runGuard cfg (run (step cfg) boot earlier) s).2.isSome →
        (∃ before first rest, earlier ++ [s] = before ++ first :: rest ∧
          (∀ w ∈ first :: rest, w.stamp = s.stamp) ∧ first.up + cfg.idleSecs ≤ s.up) ∨
        (∀ w ∈ earlier ++ [s], w.stamp = none) ∧ cfg.idleSecs ≤ s.up) ∧
    ∀ earlier first later last,
      (earlier ++ first :: later ++ [last]).Pairwise (fun a b => a.up ≤ b.up) →
      cfg.maxSecs ≤ first.up → first.up + uploadDeferCeilingSecs ≤ last.up →
        ∃ o ∈ outcomes cfg (run (step cfg) boot earlier) (first :: later ++ [last]), o.isSome :=
  ⟨fun _ _ => idle_of_destructs, fun _ _ _ _ => destructs_past_ceiling⟩

theorem guard_sound_upload :
    ∃ o ∈ outcomes ⟨"", "", "", 0, 1, 2⟩ (run (step ⟨"", "", "", 0, 1, 2⟩) boot [⟨10, some 5, false⟩])
      [⟨120, some 100, true⟩, ⟨400, some 390, true⟩, ⟨720, none, true⟩], o.isSome :=
  (guard_sound ⟨"", "", "", 0, 1, 2⟩).2 [⟨10, some 5, false⟩] ⟨120, some 100, true⟩
    [⟨400, some 390, true⟩] ⟨720, none, true⟩ (by decide) (by decide) (by decide)

end JamStream.Cloud.Guard
