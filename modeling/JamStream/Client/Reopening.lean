import JamStream.Foundations.Runs
import JamStream.Foundations.Spacing

/-! The loop that reopens a lost audio stream: an episode of attempts with widening waits and a
budget, which ends when a stream has run for a while or somebody picks another device. What was
attempted is listed with the latest first. -/

namespace JamStream.Client
open Foundations Runs

def reopenInterval : ℕ := 500

def reopenBackoffMax : ℕ := 4000

def reopenAttemptsMax : ℕ := 6

def streamSettledAfter : ℕ := 5000

structure ReopenEpisode where
  attempts : ℕ
  /-- The episode began with a stream that stopped on its own. -/
  faulted : Bool
deriving DecidableEq

namespace ReopenEpisode

def new : ReopenEpisode := { attempts := 0, faulted := false }

/-- The wait owed after so many attempts. -/
def wait : ℕ → ℕ
  | 0 => 0
  | n + 1 => min (reopenInterval * 2 ^ min n 16) reopenBackoffMax

def backoff (e : ReopenEpisode) : ℕ := wait e.attempts

def spent (e : ReopenEpisode) : Bool := reopenAttemptsMax ≤ e.attempts

end ReopenEpisode

inductive AudioFaultView
  | retrying
  | gaveUp (tries : ℕ)
deriving DecidableEq

/-- One attempt to open the device (history): when it began, its number in its episode, whether a
pick asked for it, whether it was warned about, when the stream opened or what the device said, and
the rates it opened at. -/
structure Reopen (ρ : Type) where
  began : ℕ
  attempt : ℕ
  asked : Bool
  warned : Bool
  outcome : Except String ℕ
  rates : Option ρ

/-- The worker's device side, and the attempts so far (history). -/
structure ReopenLoop (ρ : Type) where
  now : ℕ
  /-- There is an engine, and with it a stream. -/
  running : Bool
  openedAt : Option ℕ
  lastReopen : Option ℕ
  shutAt : Option ℕ
  episode : ReopenEpisode
  reopenAttempts : ℕ
  deviceStops : ℕ
  /-- What the screens read. -/
  shownAttempts : ℕ
  deviceError : Option String
  rate : Option ρ
  fault : Option AudioFaultView
  tries : List (Reopen ρ)

/-- The clock's way through one turn: up to it, from there to the look at the wait, from there to
the attempt, and the attempt itself. -/
structure Pace where
  idle : ℕ
  look : ℕ
  start : ℕ
  opening : ℕ

inductive Turn (ρ : Type)
  | check (pace : Pace) (errored : Bool) (answer : Except String (Option ρ))
  | reconfigure (pace : Pace) (answer : Except String (Option ρ))

namespace ReopenLoop
variable {ρ : Type}

def start (rate : Option ρ) : ReopenLoop ρ where
  now := 0
  running := true
  openedAt := some 0
  lastReopen := none
  shutAt := none
  episode := .new
  reopenAttempts := 0
  deviceStops := 0
  shownAttempts := 0
  deviceError := none
  rate
  fault := none
  tries := []

def pass (s : ReopenLoop ρ) (ms : ℕ) : ReopenLoop ρ := { s with now := s.now + ms }

def tryOpen (s : ReopenLoop ρ) (answer : Except String (Option ρ)) : ReopenLoop ρ :=
  match answer with
  | .ok rate =>
    { s with
      running := true
      openedAt := some s.now
      shutAt := none
      shownAttempts := s.reopenAttempts
      deviceError := none
      rate }
  | .error err => { s with deviceError := some err, rate := none }

/-- A first attempt at a reopen somebody asked for is not a fault and is not warned about. -/
def reopen (s : ReopenLoop ρ) (asked : Bool) (opening : ℕ)
    (answer : Except String (Option ρ)) : Reopen ρ where
  began := s.now
  attempt := s.episode.attempts + 1
  asked
  warned := !(s.shutAt.isSome && s.episode.attempts + 1 == 1)
  outcome := answer.map fun _ => s.now + opening
  rates := answer.toOption.join

def attemptOpen (s : ReopenLoop ρ) (asked : Bool) (opening : ℕ)
    (answer : Except String (Option ρ)) : ReopenLoop ρ :=
  ({ s with
      lastReopen := some s.now
      reopenAttempts := s.reopenAttempts + 1
      episode := { s.episode with attempts := s.episode.attempts + 1 }
      tries := s.reopen asked opening answer :: s.tries }.pass opening).tryOpen answer

def stop (s : ReopenLoop ρ) (errored : Bool) : ReopenLoop ρ :=
  if s.running && errored then
    { s with
      running := false
      openedAt := none
      rate := none
      episode := { s.episode with faulted := true }
      deviceStops := s.deviceStops + 1 }
  else s

def settle (s : ReopenLoop ρ) : ReopenLoop ρ :=
  if s.openedAt.any fun t => streamSettledAfter ≤ s.now - t then
    { s with openedAt := none, episode := .new }
  else s

def retry (s : ReopenLoop ρ) (pace : Pace) (answer : Except String (Option ρ)) : ReopenLoop ρ :=
  if !s.running && !s.episode.spent && s.lastReopen.all fun t => s.episode.backoff ≤ s.now - t then
    (s.pass pace.start).attemptOpen false pace.opening answer
  else s

def audioFault (s : ReopenLoop ρ) : Option AudioFaultView :=
  if s.running then none
  else if s.episode.spent then some (.gaveUp s.episode.attempts)
  else if s.episode.faulted then some .retrying
  else none

def publishFault (s : ReopenLoop ρ) : ReopenLoop ρ := { s with fault := s.audioFault }

def checkStream (s : ReopenLoop ρ) (pace : Pace) (errored : Bool)
    (answer : Except String (Option ρ)) : ReopenLoop ρ :=
  (((((s.pass pace.idle).stop errored).settle).pass pace.look).retry pace answer).publishFault

def reconfigure (s : ReopenLoop ρ) (pace : Pace) (answer : Except String (Option ρ)) :
    ReopenLoop ρ :=
  let s := s.pass pace.idle
  ({ s with shutAt := some s.now, running := false, openedAt := none, episode := .new }.pass
    pace.start).attemptOpen true pace.opening answer

def step (s : ReopenLoop ρ) : Turn ρ → ReopenLoop ρ
  | .check pace errored answer => s.checkStream pace errored answer
  | .reconfigure pace answer => s.reconfigure pace answer

end ReopenLoop

variable {ρ : Type}

/-- What lets one attempt come after another: a pick, the wait of an unspent budget, or a stream
that ran until it counted as recovered. -/
inductive Follows (t p : Reopen ρ) : Prop
  | asked (hasked : t.asked = true) (first : t.attempt = 1) (later : p.began ≤ t.began)
  | again (hasked : t.asked = false) (next : t.attempt = p.attempt + 1)
    (waited : p.began + ReopenEpisode.wait p.attempt ≤ t.began)
  | recovered (hasked : t.asked = false) (first : t.attempt = 1) (opened : ℕ)
    (outcome : p.outcome = .ok opened) (later : p.began ≤ opened)
    (settled : opened + streamSettledAfter ≤ t.began)

theorem Follows.began_le {t p : Reopen ρ} (h : Follows t p) : p.began ≤ t.began := by
  cases h with
  | asked _ _ later => exact later
  | again _ _ waited => exact (Nat.le_add_right _ _).trans waited
  | recovered _ _ opened _ later settled =>
    exact later.trans ((Nat.le_add_right _ _).trans settled)

theorem Follows.spaced {t p : Reopen ρ} (h : Follows t p) (hp : 1 ≤ p.attempt)
    (hasked : t.asked = false) (hfirst : t.attempt = 1) :
    p.began + streamSettledAfter ≤ t.began := by
  cases h with
  | asked hyes => cases hasked.symm.trans hyes
  | again _ next => omega
  | recovered _ _ opened _ later settled => exact (Nat.add_le_add_right later _).trans settled

/-- An attempt's number is within the budget, and it is warned about unless it was asked for. -/
structure Reopen.Sound (t : Reopen ρ) : Prop where
  pos : 1 ≤ t.attempt
  budget : t.attempt ≤ reopenAttemptsMax
  warned : t.warned = !t.asked

def Reopen.error (t : Reopen ρ) : Option String :=
  match t.outcome with
  | .ok _ => none
  | .error err => some err

def Reopen.failed (t : Reopen ρ) : Bool := t.error.isSome

theorem pairwise_spaced {tries : List (Reopen ρ)} (hchain : tries.IsChain Follows)
    (hsound : ∀ t ∈ tries, t.Sound) :
    tries.Pairwise fun t p => p.began ≤ t.began ∧
      (t.asked = false → t.attempt = 1 → p.began + streamSettledAfter ≤ t.began) := by
  induction tries with
  | nil => exact .nil
  | cons t tries ih =>
    cases tries with
    | nil => exact List.pairwise_singleton _ _
    | cons p tries =>
      obtain ⟨hfollows, htail⟩ := List.isChain_cons_cons.mp hchain
      have hrest := ih htail fun q hq => hsound q (List.mem_cons_of_mem _ hq)
      have hp := (hsound p (List.mem_cons_of_mem _ List.mem_cons_self)).pos
      refine List.pairwise_cons.mpr ⟨fun q hq => ?_, hrest⟩
      have hq' : q.began ≤ p.began := by
        rcases List.mem_cons.mp hq with rfl | hq
        · exact le_rfl
        · exact ((List.pairwise_cons.mp hrest).1 q hq).1
      exact ⟨hq'.trans hfollows.began_le, fun hasked hfirst =>
        (Nat.add_le_add_right hq' _).trans (hfollows.spaced hp hasked hfirst)⟩

/-- In a while there are only so many attempts: those of the picks, and those of the episodes that
recovered streams leave room for. -/
theorem length_burst {tries : List (Reopen ρ)} (hchain : tries.IsChain Follows)
    (hsound : ∀ t ∈ tries, t.Sound) {from_ d : ℕ}
    (hwithin : ∀ t ∈ tries, from_ ≤ t.began ∧ t.began ≤ from_ + d) :
    tries.length ≤
      reopenAttemptsMax * (tries.countP Reopen.asked + d / streamSettledAfter + 2) := by
  have hnumbered : tries.IsChain fun t p => t.attempt = 1 ∨ t.attempt = p.attempt + 1 := by
    refine hchain.imp fun t p h => ?_
    cases h with
    | asked _ first => exact .inl first
    | again _ next => exact .inr next
    | recovered _ first => exact .inl first
  have hepisodes := length_le_of_numbered hnumbered fun t ht =>
    ⟨(hsound t ht).pos, (hsound t ht).budget⟩
  have hspaced : (((tries.filter fun t => !t.asked).filter fun t => t.attempt = 1).map
      Reopen.began).Pairwise fun later earlier => earlier + streamSettledAfter ≤ later := by
    rw [List.pairwise_map]
    refine (((pairwise_spaced hchain hsound).filter _).filter _).imp_of_mem fun ht _ h => ?_
    obtain ⟨ht, hfirst⟩ := List.mem_filter.mp ht
    exact h.2 (by simpa using (List.mem_filter.mp ht).2) (of_decide_eq_true hfirst)
  have hin : ∀ t ∈ ((tries.filter fun t => !t.asked).filter fun t => t.attempt = 1).map
      Reopen.began, from_ ≤ t ∧ t ≤ from_ + d := by
    intro t ht
    obtain ⟨r, hr, rfl⟩ := List.mem_map.mp ht
    exact hwithin r (List.mem_of_mem_filter (List.mem_of_mem_filter hr))
  have hfresh := length_le_of_spaced (by decide) from_ hspaced hin
  have hsplit : tries.countP (fun t => t.attempt = 1) ≤
      tries.countP Reopen.asked + (d / streamSettledAfter + 1) := by
    rw [List.countP_eq_countP_filter_add tries _ Reopen.asked]
    refine Nat.add_le_add ?_ ?_
    · rw [List.countP_eq_length_filter (p := Reopen.asked)]
      exact List.countP_le_length
    · rw [List.length_map] at hfresh
      rw [List.countP_eq_length_filter]
      exact hfresh
  exact hepisodes.trans (Nat.mul_le_mul_left _ (Nat.succ_le_succ hsplit))

namespace ReopenLoop
variable {s : ReopenLoop ρ} {asked : Bool} {opening : ℕ}
  {answer : Except String (Option ρ)}

/-- The last attempt is still counted in its episode, or the stream it opened has ended it. -/
inductive Counted (attempts : ℕ) (openedAt : Option ℕ) (now : ℕ) (p : Reopen ρ) : Prop
  | running (same : attempts = p.attempt)
    (opened : ∀ o ∈ openedAt, p.outcome = .ok o ∧ p.began ≤ o)
  | ended (fresh : attempts = 0) (opened : openedAt = none) (o : ℕ) (outcome : p.outcome = .ok o)
    (later : p.began ≤ o) (settled : o + streamSettledAfter ≤ now)

/-- What the loop knows of the attempts so far. -/
def Knows (s : ReopenLoop ρ) : List (Reopen ρ) → Prop
  | [] => s.episode.attempts = 0 ∧ s.lastReopen = none
  | p :: _ => s.lastReopen = some p.began ∧ p.began ≤ s.now ∧
      Counted s.episode.attempts s.openedAt s.now p

theorem Knows.imp {s' : ReopenLoop ρ} {tries : List (Reopen ρ)} (h : s.Knows tries)
    (hnone : s.episode.attempts = 0 → s'.episode.attempts = 0)
    (hlast : s'.lastReopen = s.lastReopen) (hnow : s.now ≤ s'.now)
    (hcounted : ∀ p : Reopen ρ, Counted s.episode.attempts s.openedAt s.now p →
      Counted s'.episode.attempts s'.openedAt s'.now p) : s'.Knows tries := by
  cases tries with
  | nil => exact ⟨hnone h.1, hlast.trans h.2⟩
  | cons p tries =>
    obtain ⟨hbegan, hbefore, hp⟩ := h
    exact ⟨hlast.trans hbegan, hbefore.trans hnow, hcounted p hp⟩

theorem Knows.latest {tries : List (Reopen ρ)} {p : Reopen ρ} (h : s.Knows tries)
    (hp : p ∈ tries.head?) : s.lastReopen = some p.began ∧ p.began ≤ s.now ∧
      Counted s.episode.attempts s.openedAt s.now p := by
  cases tries with
  | nil => cases hp
  | cons q tries =>
    obtain rfl := Option.some.inj hp
    exact h

structure Kept (s : ReopenLoop ρ) : Prop where
  chain : s.tries.IsChain Follows
  sound : ∀ t ∈ s.tries, t.Sound
  knows : s.Knows s.tries
  shut : s.shutAt ≠ none → 1 ≤ s.episode.attempts
  opened : s.openedAt ≠ none → s.shutAt = none ∧ s.running = true

theorem kept_start (rate : Option ρ) : Kept (start rate) where
  chain := .nil
  sound _ h := by cases h
  knows := ⟨rfl, rfl⟩
  shut h := absurd rfl h
  opened _ := ⟨rfl, rfl⟩

theorem Kept.pass (h : Kept s) (ms : ℕ) : Kept (s.pass ms) where
  chain := h.chain
  sound := h.sound
  knows := by
    refine h.knows.imp (fun hzero => hzero) rfl (Nat.le_add_right _ _) fun p hcounted => ?_
    cases hcounted with
    | running attempts opened => exact .running attempts opened
    | ended attempts opened o outcome later settled =>
      exact .ended attempts opened o outcome later (settled.trans (Nat.le_add_right _ _))
  shut := h.shut
  opened := h.opened

theorem Kept.close (h : Kept s) (running faulted : Bool) (stops : ℕ) (rate : Option ρ) :
    Kept { s with
      running, openedAt := none, rate, deviceStops := stops
      episode := { s.episode with faulted } } where
  chain := h.chain
  sound := h.sound
  knows := by
    refine h.knows.imp (fun hzero => hzero) rfl le_rfl fun p hcounted => ?_
    cases hcounted with
    | running attempts _ => exact .running attempts fun o ho => by cases ho
    | ended attempts _ o outcome later settled =>
      exact .ended attempts rfl o outcome later settled
  shut := h.shut
  opened h := absurd rfl h

theorem Kept.stop (h : Kept s) (errored : Bool) : Kept (s.stop errored) := by
  rw [ReopenLoop.stop]
  split
  · exact h.close false true (s.deviceStops + 1) none
  · exact h

theorem Kept.settle (h : Kept s) : Kept s.settle := by
  rw [ReopenLoop.settle]
  split
  next hany =>
    cases hopened : s.openedAt with
    | none =>
      rw [hopened] at hany
      cases hany
    | some o =>
      rw [hopened] at hany
      have hsettled : streamSettledAfter ≤ s.now - o := of_decide_eq_true hany
      have hlong : 0 < streamSettledAfter := by decide
      have hshut := (h.opened (by rw [hopened]; exact Option.some_ne_none o)).1
      refine ⟨h.chain, h.sound, ?_, fun hne => absurd hshut hne, fun hne => absurd rfl hne⟩
      refine h.knows.imp (fun _ => rfl) rfl le_rfl fun p hcounted => ?_
      -- the stream that settles is the one the last attempt opened
      cases hcounted with
      | running _ opened =>
        obtain ⟨outcome, later⟩ := opened o hopened
        exact .ended rfl rfl o outcome later (by dsimp only; omega)
      | ended _ opened =>
        rw [opened] at hopened
        cases hopened
  next => exact h

theorem kept_attemptOpen (hchain : s.tries.IsChain Follows) (hsounds : ∀ t ∈ s.tries, t.Sound)
    (hopened : s.openedAt = none) (hsound : (s.reopen asked opening answer).Sound)
    (hfollows : ∀ p ∈ s.tries.head?, Follows (s.reopen asked opening answer) p) :
    Kept (s.attemptOpen asked opening answer) := by
  have hchain' : (s.reopen asked opening answer :: s.tries).IsChain Follows :=
    List.isChain_cons.mpr ⟨hfollows, hchain⟩
  have hsounds' : ∀ t ∈ s.reopen asked opening answer :: s.tries, t.Sound :=
    List.forall_mem_cons.mpr ⟨hsound, hsounds⟩
  cases answer with
  | error err =>
    refine ⟨hchain', hsounds', ⟨rfl, Nat.le_add_right _ _, .running rfl fun o ho => ?_⟩,
      fun _ => Nat.le_add_left _ _, fun hne => absurd hopened hne⟩
    cases hopened.symm.trans ho
  | ok rate =>
    refine ⟨hchain', hsounds', ⟨rfl, Nat.le_add_right _ _, .running rfl fun o ho => ?_⟩,
      fun hne => absurd rfl hne, fun _ => ⟨rfl, rfl⟩⟩
    obtain rfl := Option.some.inj ho
    exact ⟨rfl, Nat.le_add_right _ _⟩

theorem Kept.retry (h : Kept s) (pace : Pace) (answer : Except String (Option ρ)) :
    Kept (s.retry pace answer) := by
  rw [ReopenLoop.retry]
  split
  next hdue =>
    rw [Bool.and_eq_true, Bool.and_eq_true, Bool.not_eq_true', Bool.not_eq_true'] at hdue
    obtain ⟨⟨hrunning, hspent⟩, hwaited⟩ := hdue
    have hbudget : s.episode.attempts < reopenAttemptsMax :=
      not_le.mp (of_decide_eq_false hspent)
    have hopened : s.openedAt = none := by
      by_contra hne
      rw [(h.opened hne).2] at hrunning
      cases hrunning
    refine kept_attemptOpen h.chain h.sound hopened ⟨Nat.le_add_left _ _, hbudget, ?_⟩ ?_
    · -- a device that was shut for a pick has been tried at least once
      have hshut := h.shut
      change (!(s.shutAt.isSome && s.episode.attempts + 1 == 1)) = true
      cases hcase : s.shutAt with
      | none => rfl
      | some t =>
        have hpos := hshut (by rw [hcase]; exact Option.some_ne_none t)
        have hne : (s.episode.attempts + 1 == 1) = false := beq_false_of_ne (by omega)
        rw [hne]
        rfl
    · intro p hp
      obtain ⟨hlast, hbegan, hcounted⟩ := h.knows.latest hp
      -- the wait was owed from the last attempt on, unless its stream ended the episode
      rw [hlast] at hwaited
      have hbackoff : s.episode.backoff ≤ s.now - p.began := of_decide_eq_true hwaited
      cases hcounted with
      | running attempts _ =>
        refine .again rfl (congrArg Nat.succ attempts) ?_
        rw [ReopenEpisode.backoff, attempts] at hbackoff
        change p.began + _ ≤ s.now + pace.start
        omega
      | ended attempts _ o outcome later settled =>
        refine .recovered rfl (congrArg Nat.succ attempts) o outcome later ?_
        exact settled.trans (Nat.le_add_right _ _)
  next => exact h

theorem Kept.reconfigure (h : Kept s) (pace : Pace) (answer : Except String (Option ρ)) :
    Kept (s.reconfigure pace answer) := by
  have hbudget : 1 ≤ reopenAttemptsMax := by decide
  refine kept_attemptOpen h.chain h.sound rfl ⟨le_rfl, hbudget, rfl⟩ fun p hp => ?_
  obtain ⟨-, hbegan, -⟩ := h.knows.latest hp
  refine .asked rfl rfl (hbegan.trans ?_)
  exact (Nat.le_add_right _ _).trans (Nat.le_add_right _ _)

theorem Kept.step (h : Kept s) (turn : Turn ρ) : Kept (s.step turn) := by
  cases turn with
  | check pace errored answer =>
    have hretried := ((((h.pass pace.idle).stop errored).settle).pass pace.look).retry pace answer
    exact ⟨hretried.chain, hretried.sound, hretried.knows, hretried.shut, hretried.opened⟩
  | reconfigure pace answer => exact h.reconfigure pace answer

/-- What the screens read of the attempts: their number up to the last stream that opened, what the
device said if the last one failed, and the rates of the stream that runs, which is the last one's,
or the first stream's while nothing was attempted. -/
structure Shown (first : Option ρ) (s : ReopenLoop ρ) : Prop where
  attempts : s.reopenAttempts = s.tries.length
  streamed : s.shownAttempts = (s.tries.dropWhile Reopen.failed).length
  error : s.deviceError = s.tries.head?.bind Reopen.error
  running : s.running = true → s.deviceError = none
  rate : s.rate = if s.running then s.tries.head?.elim first Reopen.rates else none

theorem shown_start (first : Option ρ) : Shown first (start first) where
  attempts := rfl
  streamed := rfl
  error := rfl
  running _ := rfl
  rate := rfl

variable {first : Option ρ}

theorem shown_attemptOpen (hattempts : s.reopenAttempts = s.tries.length)
    (hstreamed : s.shownAttempts = (s.tries.dropWhile Reopen.failed).length)
    (hrunning : s.running = false) : Shown first (s.attemptOpen asked opening answer) := by
  cases answer with
  | error err =>
    have hnone : (s.attemptOpen asked opening (.error err)).rate = none := rfl
    have hstopped : (s.attemptOpen asked opening (.error err)).running = false := hrunning
    refine ⟨congrArg Nat.succ hattempts, hstreamed, rfl, fun h => ?_, ?_⟩
    · cases hstopped.symm.trans h
    · rw [hnone, hstopped, if_neg Bool.false_ne_true]
  | ok rate =>
    exact ⟨congrArg Nat.succ hattempts, congrArg Nat.succ hattempts, rfl, fun _ => rfl, rfl⟩

theorem Shown.step (h : Shown first s) (turn : Turn ρ) : Shown first (s.step turn) := by
  cases turn with
  | check pace errored answer =>
    have hstopped : Shown first ((s.pass pace.idle).stop errored) := by
      rw [stop]
      split
      · exact ⟨h.attempts, h.streamed, h.error, fun hrunning => (by cases hrunning), rfl⟩
      · exact ⟨h.attempts, h.streamed, h.error, h.running, h.rate⟩
    have hsettled : Shown first (((s.pass pace.idle).stop errored).settle.pass pace.look) := by
      rw [settle]
      split
      all_goals
        exact ⟨hstopped.attempts, hstopped.streamed, hstopped.error, hstopped.running,
          hstopped.rate⟩
    have hretried : Shown first ((((s.pass pace.idle).stop errored).settle.pass
        pace.look).retry pace answer) := by
      rw [retry]
      split
      next hdue =>
        rw [Bool.and_eq_true, Bool.and_eq_true, Bool.not_eq_true'] at hdue
        exact shown_attemptOpen hsettled.attempts hsettled.streamed hdue.1.1
      next => exact hsettled
    exact ⟨hretried.attempts, hretried.streamed, hretried.error, hretried.running, hretried.rate⟩
  | reconfigure pace answer => exact shown_attemptOpen h.attempts h.streamed rfl

/-- Giving up is said behind a whole budget only. -/
def Announced (s : ReopenLoop ρ) : Prop :=
  ∀ n, s.fault = some (.gaveUp n) → n = reopenAttemptsMax ∧ ∃ t ∈ s.tries, t.attempt = n

theorem Kept.announced (h : Kept s) : Announced s.publishFault := by
  intro n hn
  change s.audioFault = _ at hn
  rw [audioFault] at hn
  split at hn
  · cases hn
  split at hn
  next hspent =>
    obtain rfl := AudioFaultView.gaveUp.inj (Option.some.inj hn)
    have hbudget : reopenAttemptsMax ≤ s.episode.attempts := of_decide_eq_true hspent
    have hmax : 0 < reopenAttemptsMax := by decide
    have hknows := h.knows
    cases htries : s.tries with
    | nil =>
      rw [htries] at hknows
      have hzero := hknows.1
      omega
    | cons p tries =>
      rw [htries] at hknows
      have hp : p ∈ s.tries := by rw [htries]; exact List.mem_cons_self
      obtain ⟨-, -, hcounted⟩ := hknows
      cases hcounted with
      | running attempts =>
        have hp' := (h.sound p hp).budget
        exact ⟨by omega, p, hp, attempts.symm⟩
      | ended attempts => omega
  next =>
    split at hn
    · cases hn
    · cases hn

theorem Announced.step (hkept : Kept s) (h : Announced s) (turn : Turn ρ) :
    Announced (s.step turn) := by
  cases turn with
  | check pace errored answer =>
    exact (((((hkept.pass pace.idle).stop errored).settle).pass pace.look).retry pace
      answer).announced
  | reconfigure pace answer =>
    intro n hn
    cases answer with
    | error err =>
      obtain ⟨hmax, t, ht, hattempt⟩ := h n hn
      exact ⟨hmax, t, List.mem_cons_of_mem _ ht, hattempt⟩
    | ok rate =>
      obtain ⟨hmax, t, ht, hattempt⟩ := h n hn
      exact ⟨hmax, t, List.mem_cons_of_mem _ ht, hattempt⟩

/-- What a device that comes and goes can make the loop do, and what is shown of it. -/
structure Bounded (first : Option ρ) (s : ReopenLoop ρ) : Prop where
  chain : s.tries.IsChain Follows
  sound : ∀ t ∈ s.tries, t.Sound
  burst : ∀ some_ from_ d, some_ <:+: s.tries →
    (∀ t ∈ some_, from_ ≤ t.began ∧ t.began ≤ from_ + d) →
    some_.length ≤ reopenAttemptsMax * (some_.countP Reopen.asked + d / streamSettledAfter + 2)
  announced : Announced s
  shown : Shown first s

/-- Over every run of the loop, attempts nobody asked for wait for one another or for a stream that
ran, so that no device makes a storm of them, and the screens say how the last ones went. -/
theorem flapping_device_bounded (rate : Option ρ) (turns : List (Turn ρ)) :
    Bounded rate (run step (start rate) turns) := by
  obtain ⟨hkept, hshown, hannounced⟩ : Kept (run step (start rate) turns) ∧
      Shown rate (run step (start rate) turns) ∧ Announced (run step (start rate) turns) :=
    run_invariant (P := fun s => Kept s ∧ Shown rate s ∧ Announced s)
      (fun _ turn h => ⟨h.1.step turn, h.2.1.step turn, h.2.2.step h.1 turn⟩)
      ⟨kept_start rate, shown_start rate, fun n hn => by cases hn⟩ turns
  refine ⟨hkept.chain, hkept.sound, fun some_ from_ d hpart hwithin => ?_, hannounced, hshown⟩
  have hchain := List.IsChain.infix hkept.chain hpart
  exact length_burst hchain (fun t ht => hkept.sound t (hpart.subset ht)) hwithin

/-- A stream at 48 kHz that dies, is refused a reopen, and comes back at 44.1. -/
def unplugged : List (Turn ℕ) :=
  [.check ⟨1000, 0, 0, 5⟩ true (.error "no device"), .check ⟨500, 0, 0, 5⟩ false (.ok (some 44100))]

theorem flapping_device_bounded_unplugged :
    (run step (start (some 48000)) unplugged).rate = some 44100 ∧
    (run step (start (some 48000)) unplugged).reopenAttempts = 2 := by
  have hshown := (flapping_device_bounded (some 48000) unplugged).shown
  have hrunning : (run step (start (some 48000)) unplugged).running = true := by decide
  refine ⟨?_, hshown.attempts⟩
  rw [hshown.rate, if_pos hrunning]
  rfl

end ReopenLoop
end JamStream.Client
