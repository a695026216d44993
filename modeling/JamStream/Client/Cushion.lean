import JamStream.Foundations.Settling
import JamStream.Foundations.Runs

/-! How deep the playout ring is kept: deeper on the reading that saw it run dry, shallower behind
a long quiet, and a frame at a time either way. -/

namespace JamStream.Client
open Foundations Runs

def channels : ℕ := 2

def cushionStep : ℕ := 240

/-- The quiet behind a frame handed back, in nanoseconds. -/
def cushionQuiet : ℕ := 90 * 10 ^ 9

def playoutCushionSamples (callbackSamples pullSamples : ℕ) : ℕ :=
  2 * max callbackSamples pullSamples

def playoutTarget (bufferFrames : UInt32) : ℕ :=
  playoutCushionSamples (bufferFrames.toNat * channels) cushionStep

/-- Sixty milliseconds, or the target where that is more. -/
def playoutCapacity (bufferFrames : UInt32) : ℕ :=
  max (playoutTarget bufferFrames) (60 * 48000 / 1000 * channels)

structure CushionControl where
  target : ℕ
  wanted : ℕ
  floor : ℕ
  ceiling : ℕ
  auto : Bool
  callback : ℕ
  readAt : Option ℕ
  catchingUp : Bool
  quietSince : Option ℕ
  outOfRoom : Bool
deriving DecidableEq

namespace CushionControl

def new (deviceFrames : UInt32) (auto : Bool) : CushionControl :=
  { target := playoutTarget deviceFrames
    wanted := playoutTarget deviceFrames
    floor := playoutTarget deviceFrames
    ceiling := min (2 * playoutTarget deviceFrames) (playoutCapacity deviceFrames)
    auto
    callback := deviceFrames.toNat * channels
    readAt := none
    catchingUp := true
    quietSince := none
    outOfRoom := false }

def setAuto (s : CushionControl) (auto : Bool) : CushionControl :=
  if s.auto = auto then s
  else { s with
    auto
    target := s.floor
    wanted := s.floor
    quietSince := none
    outOfRoom := false
    catchingUp := true }

def advance (s : CushionControl) : CushionControl :=
  if s.target = s.wanted then s
  else { s with
    target := if s.target < s.wanted then min (s.target + cushionStep) s.wanted
      else max (s.target - cushionStep) s.wanted
    catchingUp := true }

/-- The frames it takes for the dip of a reading to clear the line. -/
def growSteps (s : CushionControl) (low : ℕ) : ℕ :=
  let dip := s.target - low
  let need := s.callback + cushionStep + dip
  max ((need - s.target + (cushionStep - 1)) / cushionStep) 1

def grow (s : CushionControl) (low : ℕ) : CushionControl :=
  if !s.auto || s.ceiling ≤ s.target then { s with outOfRoom := true }
  else { s with wanted := min (s.target + s.growSteps low * cushionStep) s.ceiling }.advance

def giveBack (s : CushionControl) (time low : ℕ) : CushionControl :=
  if s.target ≤ s.floor then { s with quietSince := none }
  else
    let step := min cushionStep (s.target - s.floor)
    if low < s.callback + cushionStep + step then { s with quietSince := none }
    else
      let since := s.quietSince.getD time
      if time - since < cushionQuiet then { s with quietSince := some since }
      else { { s with wanted := s.target - step }.advance with quietSince := some time }

def read (s : CushionControl) (time low : ℕ) (held : Bool) : CushionControl :=
  if s.catchingUp then { s with catchingUp := false, quietSince := none }
  else if low < s.callback + cushionStep then { s with quietSince := none }.grow low
  else if held then { s with outOfRoom := false, quietSince := none }
  else { s with outOfRoom := false }.giveBack time low

/-- What a window this has not acted on does. The bridge counts frames, and the product wraps. -/
def window (s : CushionControl) (time : ℕ) (low : Option UInt64) (held : Bool) : CushionControl :=
  match low with
  | none => { s with quietSince := none }
  | some low => s.read time (low.toNat * channels % 2 ^ 64) held

def observe (s : CushionControl) (time : ℕ) (low : Option UInt64) (held : Bool) : CushionControl :=
  if s.advance.readAt = some time then s.advance
  else { s.advance with readAt := some time }.window time low held

inductive Call
  | observe (time : ℕ) (low : Option UInt64) (held : Bool)
  | setAuto (auto : Bool)

def step (s : CushionControl) : Call → CushionControl
  | .observe time low held => s.observe time low held
  | .setAuto auto => s.setAuto auto


/-! What a stream was opened with outlives every reading. -/

structure SameStream (s t : CushionControl) : Prop where
  floor : t.floor = s.floor
  ceiling : t.ceiling = s.ceiling
  callback : t.callback = s.callback
  auto : t.auto = s.auto

theorem SameStream.refl (s : CushionControl) : SameStream s s := ⟨rfl, rfl, rfl, rfl⟩

theorem SameStream.trans {s t u : CushionControl} (hst : SameStream s t) (htu : SameStream t u) :
    SameStream s u :=
  ⟨htu.floor.trans hst.floor, htu.ceiling.trans hst.ceiling, htu.callback.trans hst.callback,
    htu.auto.trans hst.auto⟩

theorem advance_settled {s : CushionControl} (h : s.target = s.wanted) : s.advance = s :=
  if_pos h

theorem advance_up {s : CushionControl} (h : s.target < s.wanted) : s.advance =
    { s with target := min (s.target + cushionStep) s.wanted, catchingUp := true } := by
  have hne : s.target ≠ s.wanted := Nat.ne_of_lt h
  rw [advance, if_neg hne, if_pos h]

theorem advance_down {s : CushionControl} (h : s.wanted < s.target) : s.advance =
    { s with target := max (s.target - cushionStep) s.wanted, catchingUp := true } := by
  have hne : s.target ≠ s.wanted := Nat.ne_of_gt h
  have hnot : ¬ s.target < s.wanted := Nat.lt_asymm h
  rw [advance, if_neg hne, if_neg hnot]

/-- A reading under the line sends the depth up, while it may move and has room. -/
structure Grows (s : CushionControl) (low : ℕ) (t : CushionControl) : Prop where
  under : low < s.callback + cushionStep
  auto : s.auto = true
  room : s.target < s.ceiling
  wanted : ∃ n, 0 < n ∧ t.wanted = min (s.target + n * cushionStep) s.ceiling
  target : t.target = min (s.target + cushionStep) t.wanted

/-- A reading a frame clear of the line hands one back, while nobody is recording. -/
structure GivesBack (s : CushionControl) (low : ℕ) (held : Bool) (t : CushionControl) : Prop where
  free : held = false
  above : s.floor < s.target
  clear : s.callback + cushionStep + min cushionStep (s.target - s.floor) ≤ low
  wanted : t.wanted = s.target - min cushionStep (s.target - s.floor)
  target : t.target = t.wanted

def Acts (s : CushionControl) (low : ℕ) (held : Bool) (t : CushionControl) : Prop :=
  SameStream s t ∧
    (t.target = s.target ∧ t.wanted = s.wanted ∨ Grows s low t ∨ GivesBack s low held t)

theorem Acts.still {s t : CushionControl} {low : ℕ} {held : Bool} (hsame : SameStream s t)
    (htarget : t.target = s.target) (hwanted : t.wanted = s.wanted) : Acts s low held t :=
  ⟨hsame, .inl ⟨htarget, hwanted⟩⟩

theorem Acts.of_same {s u t : CushionControl} {low : ℕ} {held : Bool} (hsame : SameStream s u)
    (htarget : u.target = s.target) (hwanted : u.wanted = s.wanted) (h : Acts u low held t) :
    Acts s low held t := by
  obtain ⟨hstream, hmoves⟩ := h
  refine ⟨hsame.trans hstream, ?_⟩
  rcases hmoves with hstill | hgrows | hback
  · rw [htarget, hwanted] at hstill
    exact .inl hstill
  · have hwants := hgrows.wanted
    have hnext := hgrows.target
    have hunder := hgrows.under
    have hroom := hgrows.room
    rw [htarget, hsame.ceiling] at hwants hroom
    rw [htarget] at hnext
    rw [hsame.callback] at hunder
    exact .inr (.inl ⟨hunder, hsame.auto.symm.trans hgrows.auto, hroom, hwants, hnext⟩)
  · have habove := hback.above
    have hclear := hback.clear
    have hwants := hback.wanted
    rw [htarget, hsame.floor] at habove hclear hwants
    rw [hsame.callback] at hclear
    exact .inr (.inr ⟨hback.free, habove, hclear, hwants, hback.target⟩)

theorem one_le_growSteps (s : CushionControl) (low : ℕ) : 0 < s.growSteps low := by
  rw [growSteps]
  exact Nat.lt_of_lt_of_le Nat.one_pos (Nat.le_max_right _ _)

theorem grow_acts {s : CushionControl} {low : ℕ} (held : Bool)
    (hlow : low < s.callback + cushionStep) : Acts s low held (s.grow low) := by
  rw [grow]
  split
  · exact .still ⟨rfl, rfl, rfl, rfl⟩ rfl rfl
  next hmay =>
    have hauto : s.auto = true := by simp_all
    have hroom : s.target < s.ceiling := by simp_all
    have hsteps := s.one_le_growSteps low
    have hup : s.target < min (s.target + s.growSteps low * cushionStep) s.ceiling := by
      have hpos : 0 < s.growSteps low * cushionStep := Nat.mul_pos hsteps (by decide)
      exact lt_min (Nat.lt_add_of_pos_right hpos) hroom
    rw [advance_up (s := { s with wanted := _ }) hup]
    refine ⟨⟨rfl, rfl, rfl, rfl⟩, .inr (.inl ⟨hlow, hauto, hroom, ?_, rfl⟩)⟩
    exact ⟨s.growSteps low, hsteps, rfl⟩

theorem giveBack_acts {s : CushionControl} (time low : ℕ) :
    Acts s low false (s.giveBack time low) := by
  simp only [giveBack]
  split_ifs with hfloor hclear hquiet
  · exact .still ⟨rfl, rfl, rfl, rfl⟩ rfl rfl
  · exact .still ⟨rfl, rfl, rfl, rfl⟩ rfl rfl
  · exact .still ⟨rfl, rfl, rfl, rfl⟩ rfl rfl
  · push Not at hfloor hclear
    have hstep : 0 < min cushionStep (s.target - s.floor) :=
      lt_min (by decide) (Nat.sub_pos_of_lt hfloor)
    have hwithin : min cushionStep (s.target - s.floor) ≤ cushionStep := Nat.min_le_left _ _
    have hdown : s.target - min cushionStep (s.target - s.floor) < s.target :=
      Nat.sub_lt (Nat.zero_lt_of_lt hfloor) hstep
    rw [advance_down (s := { s with wanted := _ }) hdown]
    refine ⟨⟨rfl, rfl, rfl, rfl⟩, .inr (.inr ⟨rfl, hfloor, hclear, rfl, ?_⟩)⟩
    -- a frame back is never more than one tick of the walk
    exact Nat.max_eq_right (Nat.sub_le_sub_left hwithin s.target)

theorem read_acts (s : CushionControl) (time low : ℕ) (held : Bool) :
    Acts s low held (s.read time low held) := by
  rw [read]
  split_ifs with hcatching hunder hheld
  · exact .still ⟨rfl, rfl, rfl, rfl⟩ rfl rfl
  · have hgrow := grow_acts (s := { s with quietSince := none }) held hunder
    have hsame : SameStream s { s with quietSince := none } := ⟨rfl, rfl, rfl, rfl⟩
    exact hgrow.of_same hsame rfl rfl
  · exact .still ⟨rfl, rfl, rfl, rfl⟩ rfl rfl
  · have hfree : held = false := Bool.eq_false_of_not_eq_true hheld
    subst hfree
    have hback := giveBack_acts (s := { s with outOfRoom := false }) time low
    have hsame : SameStream s { s with outOfRoom := false } := ⟨rfl, rfl, rfl, rfl⟩
    exact hback.of_same hsame rfl rfl

theorem read_catchingUp {s : CushionControl} (h : s.catchingUp = true) (time low : ℕ) (held : Bool) :
    s.read time low held = { s with catchingUp := false, quietSince := none } :=
  if_pos h

def samples (low : UInt64) : ℕ := low.toNat * channels % 2 ^ 64

/-- A depth on its way up takes one more tick of the walk, and the window it lands in is skipped. -/
structure Walks (s t : CushionControl) : Prop where
  stream : SameStream s t
  target : t.target = min (s.target + cushionStep) s.wanted
  wanted : t.wanted = s.wanted

theorem observe_walks {s : CushionControl} (h : s.target < s.wanted) (time : ℕ)
    (low : Option UInt64) (held : Bool) : Walks s (s.observe time low held) := by
  rw [observe, advance_up h]
  split
  · exact ⟨⟨rfl, rfl, rfl, rfl⟩, rfl, rfl⟩
  · cases low with
    | none => exact ⟨⟨rfl, rfl, rfl, rfl⟩, rfl, rfl⟩
    | some low =>
      rw [window, read_catchingUp rfl]
      exact ⟨⟨rfl, rfl, rfl, rfl⟩, rfl, rfl⟩

/-- A depth that is where it is wanted moves only on the reading of a window not acted on yet. -/
theorem observe_settled {s : CushionControl} (h : s.target = s.wanted) (time : ℕ)
    (low : Option UInt64) (held : Bool) :
    (SameStream s (s.observe time low held) ∧ (s.observe time low held).target = s.target ∧
      (s.observe time low held).wanted = s.wanted) ∨
    ∃ reading, low = some reading ∧ s.readAt ≠ some time ∧
      Acts s (samples reading) held (s.observe time low held) := by
  rw [observe, advance_settled h]
  split
  · exact .inl ⟨.refl s, rfl, rfl⟩
  next hfresh =>
    cases low with
    | none => exact .inl ⟨⟨rfl, rfl, rfl, rfl⟩, rfl, rfl⟩
    | some low =>
      refine .inr ⟨low, rfl, hfresh, ?_⟩
      have hread := read_acts { s with readAt := some time } time (samples low) held
      have hsame : SameStream s { s with readAt := some time } := ⟨rfl, rfl, rfl, rfl⟩
      exact hread.of_same hsame rfl rfl

theorem observe_sameStream {s : CushionControl} (hle : s.target ≤ s.wanted) (time : ℕ)
    (low : Option UInt64) (held : Bool) : SameStream s (s.observe time low held) := by
  rcases Nat.lt_or_eq_of_le hle with hlt | heq
  · exact (observe_walks hlt time low held).stream
  · rcases observe_settled heq time low held with hstill | ⟨_, -, -, hacts⟩
    · exact hstill.1
    · exact hacts.1

/-! The bounds hold of every controller a stream can leave behind. -/

structure InBounds (deviceFrames : UInt32) (s : CushionControl) : Prop where
  floor : s.floor = playoutTarget deviceFrames
  ceiling : s.ceiling ≤ playoutCapacity deviceFrames
  callback : s.callback = deviceFrames.toNat * channels
  floor_le : s.floor ≤ s.target
  target_le : s.target ≤ s.wanted
  wanted_le : s.wanted ≤ s.ceiling
  pinned : s.auto = false → s.target = s.floor ∧ s.wanted = s.floor

theorem floor_le_capacity (deviceFrames : UInt32) :
    playoutTarget deviceFrames ≤ min (2 * playoutTarget deviceFrames) (playoutCapacity deviceFrames) :=
  le_min (Nat.le_mul_of_pos_left _ (by decide)) (Nat.le_max_left _ _)

theorem new_inBounds (deviceFrames : UInt32) (auto : Bool) :
    InBounds deviceFrames (new deviceFrames auto) :=
  ⟨rfl, Nat.min_le_right _ _, rfl, Nat.le_refl _, Nat.le_refl _, floor_le_capacity deviceFrames,
    fun _ => ⟨rfl, rfl⟩⟩

theorem InBounds.of_sameStream {deviceFrames : UInt32} {s t : CushionControl}
    (hs : InBounds deviceFrames s) (hsame : SameStream s t) (hfloor : s.floor ≤ t.target)
    (htarget : t.target ≤ t.wanted) (hwanted : t.wanted ≤ s.ceiling)
    (hpinned : s.auto = false → t.target = s.floor ∧ t.wanted = s.floor) :
    InBounds deviceFrames t where
  floor := hsame.floor.trans hs.floor
  ceiling := hsame.ceiling.symm ▸ hs.ceiling
  callback := hsame.callback.trans hs.callback
  floor_le := hsame.floor.symm ▸ hfloor
  target_le := htarget
  wanted_le := hsame.ceiling.symm ▸ hwanted
  pinned := fun h => hsame.floor.symm ▸ hpinned (hsame.auto.symm.trans h)

theorem InBounds.setAuto {deviceFrames : UInt32} {s : CushionControl}
    (hs : InBounds deviceFrames s) (auto : Bool) : InBounds deviceFrames (s.setAuto auto) := by
  rw [CushionControl.setAuto]
  split
  · exact hs
  · have hroom : s.floor ≤ s.ceiling := hs.floor_le.trans (hs.target_le.trans hs.wanted_le)
    exact ⟨hs.floor, hs.ceiling, hs.callback, Nat.le_refl _, Nat.le_refl _, hroom,
      fun _ => ⟨rfl, rfl⟩⟩

theorem InBounds.walks {deviceFrames : UInt32} {s t : CushionControl}
    (hs : InBounds deviceFrames s) (hlt : s.target < s.wanted) (h : Walks s t) :
    InBounds deviceFrames t := by
  have hfloor := hs.floor_le
  have hbelow : s.floor ≤ min (s.target + cushionStep) s.wanted :=
    le_min (hfloor.trans (Nat.le_add_right _ _)) (hfloor.trans hs.target_le)
  refine hs.of_sameStream h.stream ?_ ?_ ?_ ?_
  · exact h.target.symm ▸ hbelow
  · rw [h.target, h.wanted]
    exact Nat.min_le_right _ _
  · exact h.wanted.symm ▸ hs.wanted_le
  · intro hpinned
    obtain ⟨htarget, hwanted⟩ := hs.pinned hpinned
    rw [htarget, hwanted] at hlt
    exact absurd hlt (Nat.lt_irrefl _)

theorem InBounds.acts {deviceFrames : UInt32} {s t : CushionControl} {low : ℕ} {held : Bool}
    (hs : InBounds deviceFrames s) (h : Acts s low held t) : InBounds deviceFrames t := by
  obtain ⟨hsame, ⟨htarget, hwanted⟩ | hgrows | hback⟩ := h
  · refine hs.of_sameStream hsame ?_ ?_ ?_ ?_
    · exact htarget.symm ▸ hs.floor_le
    · rw [htarget, hwanted]
      exact hs.target_le
    · exact hwanted.symm ▸ hs.wanted_le
    · rw [htarget, hwanted]
      exact hs.pinned
  · obtain ⟨n, hn, hwants⟩ := hgrows.wanted
    have hroom := hgrows.room
    have hfloor := hs.floor_le
    have hnext := hgrows.target
    refine hs.of_sameStream hsame ?_ ?_ ?_ ?_
    · rw [hnext, hwants]
      refine le_min (hfloor.trans (Nat.le_add_right _ _)) (le_min ?_ ?_)
      · exact hfloor.trans (Nat.le_add_right _ _)
      · exact hfloor.trans hroom.le
    · exact hnext.symm ▸ Nat.min_le_right _ _
    · exact hwants.symm ▸ Nat.min_le_right _ _
    · intro hpinned
      exact absurd (hgrows.auto.symm.trans hpinned) Bool.noConfusion
  · have habove := hback.above
    have hwants := hback.wanted
    have hstep : min cushionStep (s.target - s.floor) ≤ s.target - s.floor := Nat.min_le_right _ _
    have hdown : t.wanted ≤ s.target := hwants.symm ▸ Nat.sub_le _ _
    refine hs.of_sameStream hsame ?_ ?_ ?_ ?_
    · rw [hback.target, hwants]
      omega
    · exact hback.target.le
    · exact hdown.trans (hs.target_le.trans hs.wanted_le)
    · intro hpinned
      -- a pinned depth is at the floor, so there is no frame to hand back
      exact absurd (hs.pinned hpinned).1 (Nat.ne_of_gt habove)

theorem InBounds.observe {deviceFrames : UInt32} {s : CushionControl}
    (hs : InBounds deviceFrames s) (time : ℕ) (low : Option UInt64) (held : Bool) :
    InBounds deviceFrames (s.observe time low held) := by
  rcases Nat.lt_or_eq_of_le hs.target_le with hlt | heq
  · exact hs.walks hlt (observe_walks hlt time low held)
  · rcases observe_settled heq time low held with ⟨hsame, htarget, hwanted⟩ | ⟨r, _, _, hacts⟩
    · have hstill : Acts s 0 held (s.observe time low held) := .still hsame htarget hwanted
      exact hs.acts hstill
    · exact hs.acts hacts

theorem InBounds.step {deviceFrames : UInt32} (s : CushionControl) (call : Call)
    (hs : InBounds deviceFrames s) : InBounds deviceFrames (s.step call) := by
  cases call with
  | observe time low held => exact hs.observe time low held
  | setAuto auto => exact hs.setAuto auto

/-- One reading moves the depth by at most a frame, and never down while something is recorded. -/
structure OneFrame (held : Bool) (s t : CushionControl) : Prop where
  up : t.target ≤ s.target + cushionStep
  down : s.target ≤ t.target + cushionStep
  kept : held = true → s.target ≤ t.target

theorem OneFrame.of_le {held : Bool} {s t : CushionControl} (hle : s.target ≤ t.target)
    (hup : t.target ≤ s.target + cushionStep) : OneFrame held s t :=
  ⟨hup, hle.trans (Nat.le_add_right _ _), fun _ => hle⟩

theorem acts_oneFrame {s t : CushionControl} {low : ℕ} {held : Bool} (h : Acts s low held t) :
    OneFrame held s t := by
  obtain ⟨-, ⟨htarget, -⟩ | hgrows | hback⟩ := h
  · exact .of_le htarget.ge (htarget.le.trans (Nat.le_add_right _ _))
  · obtain ⟨n, hn, hwants⟩ := hgrows.wanted
    have hnext := hgrows.target
    have hroom := hgrows.room
    refine .of_le ?_ (hnext.le.trans (Nat.min_le_left _ _))
    rw [hnext, hwants]
    exact le_min (Nat.le_add_right _ _) (le_min (Nat.le_add_right _ _) hroom.le)
  · have hnext : t.target = s.target - min cushionStep (s.target - s.floor) :=
      hback.target.trans hback.wanted
    have hwithin : min cushionStep (s.target - s.floor) ≤ cushionStep := Nat.min_le_left _ _
    refine ⟨?_, ?_, fun hheld => ?_⟩
    · exact hnext.le.trans ((Nat.sub_le _ _).trans (Nat.le_add_right _ _))
    · omega
    · exact absurd (hheld.symm.trans hback.free) Bool.noConfusion

theorem observe_oneFrame {s : CushionControl} (hle : s.target ≤ s.wanted) (time : ℕ)
    (low : Option UInt64) (held : Bool) : OneFrame held s (s.observe time low held) := by
  rcases Nat.lt_or_eq_of_le hle with hlt | heq
  · have hwalks := observe_walks hlt time low held
    refine .of_le ?_ ?_
    · rw [hwalks.target]
      exact le_min (Nat.le_add_right _ _) hle
    · rw [hwalks.target]
      exact Nat.min_le_left _ _
  · rcases observe_settled heq time low held with ⟨_, htarget, _⟩ | ⟨r, _, _, hacts⟩
    · exact .of_le htarget.ge (htarget.le.trans (Nat.le_add_right _ _))
    · exact acts_oneFrame hacts

/-! Depths are whole frames, so a reading in frames measures a dip exactly. -/

structure Whole (s : CushionControl) : Prop where
  floor : Even s.floor
  ceiling : Even s.ceiling
  target : Even s.target
  wanted : Even s.wanted

theorem even_cushionStep : Even cushionStep := by decide

theorem even_min {a b : ℕ} (ha : Even a) (hb : Even b) : Even (min a b) := by
  rcases min_choice a b with h | h <;> rwa [h]

theorem even_playoutTarget (deviceFrames : UInt32) : Even (playoutTarget deviceFrames) :=
  even_two_mul _

theorem even_playoutCapacity (deviceFrames : UInt32) : Even (playoutCapacity deviceFrames) := by
  rw [playoutCapacity]
  rcases max_choice (playoutTarget deviceFrames) (60 * 48000 / 1000 * channels) with h | h
  · rw [h]
    exact even_playoutTarget deviceFrames
  · rw [h]
    decide

theorem new_whole (deviceFrames : UInt32) (auto : Bool) : Whole (new deviceFrames auto) where
  floor := even_playoutTarget deviceFrames
  ceiling := even_min (even_two_mul _) (even_playoutCapacity deviceFrames)
  target := even_playoutTarget deviceFrames
  wanted := even_playoutTarget deviceFrames

theorem Whole.of_sameStream {s t : CushionControl} (hs : Whole s) (hsame : SameStream s t)
    (htarget : Even t.target) (hwanted : Even t.wanted) : Whole t :=
  ⟨hsame.floor.symm ▸ hs.floor, hsame.ceiling.symm ▸ hs.ceiling, htarget, hwanted⟩

theorem Whole.acts {s t : CushionControl} {low : ℕ} {held : Bool} (hs : Whole s)
    (h : Acts s low held t) : Whole t := by
  obtain ⟨hsame, ⟨htarget, hwanted⟩ | hgrows | hback⟩ := h
  · exact hs.of_sameStream hsame (htarget.symm ▸ hs.target) (hwanted.symm ▸ hs.wanted)
  · obtain ⟨n, -, hwants⟩ := hgrows.wanted
    have hclimb : Even (s.target + n * cushionStep) :=
      hs.target.add (even_cushionStep.mul_left n)
    have heven : Even t.wanted := hwants.symm ▸ even_min hclimb hs.ceiling
    refine hs.of_sameStream hsame ?_ heven
    exact hgrows.target.symm ▸ even_min (hs.target.add even_cushionStep) heven
  · have hstep : Even (min cushionStep (s.target - s.floor)) :=
      even_min even_cushionStep (hs.target.tsub hs.floor)
    have heven : Even t.wanted := hback.wanted.symm ▸ hs.target.tsub hstep
    exact hs.of_sameStream hsame (hback.target.symm ▸ heven) heven

theorem Whole.observe {s : CushionControl} (hs : Whole s) (hle : s.target ≤ s.wanted) (time : ℕ)
    (low : Option UInt64) (held : Bool) : Whole (s.observe time low held) := by
  rcases Nat.lt_or_eq_of_le hle with hlt | heq
  · have hwalks := observe_walks hlt time low held
    have htarget := even_min (hs.target.add even_cushionStep) hs.wanted
    exact hs.of_sameStream hwalks.stream (hwalks.target.symm ▸ htarget)
      (hwalks.wanted.symm ▸ hs.wanted)
  · rcases observe_settled heq time low held with ⟨hsame, htarget, hwanted⟩ | ⟨r, _, _, hacts⟩
    · exact hs.of_sameStream hsame (htarget.symm ▸ hs.target) (hwanted.symm ▸ hs.wanted)
    · exact hs.acts hacts

theorem Whole.step {s : CushionControl} (hs : Whole s) (hle : s.target ≤ s.wanted) (call : Call) :
    Whole (s.step call) := by
  cases call with
  | observe time low held => exact hs.observe hle time low held
  | setAuto auto =>
    change Whole (s.setAuto auto)
    rw [setAuto]
    split
    · exact hs
    · exact ⟨hs.floor, hs.ceiling, hs.floor, hs.floor⟩

/-! Under a constant dip a depth that came down once has room for the dip, and keeps it. -/

/-- The ring dips by `d` frames below a depth that has stopped moving. -/
def Dips (d : ℕ) (s : CushionControl) : Call → Prop
  | .observe time low _ => ∀ reading, low = some reading → s.readAt ≠ some time →
      s.target = s.wanted → reading.toNat = s.target / channels - d
  | .setAuto _ => True

structure Rested (d : ℕ) (s : CushionControl) : Prop where
  settled : s.target = s.wanted
  clear : s.callback + cushionStep + channels * d ≤ s.target

theorem InBounds.target_lt {deviceFrames : UInt32} {s : CushionControl}
    (hs : InBounds deviceFrames s) : s.target < 2 ^ 64 := by
  have hframes : deviceFrames.toNat < 2 ^ 32 := deviceFrames.toNat_lt
  have hcapacity : playoutCapacity deviceFrames < 2 ^ 64 := by
    simp only [playoutCapacity, playoutTarget, playoutCushionSamples, channels, cushionStep]
    omega
  exact (hs.target_le.trans (hs.wanted_le.trans hs.ceiling)).trans_lt hcapacity

theorem samples_of_dip {d : ℕ} {s : CushionControl} {reading : UInt64} (heven : Even s.target)
    (hlt : s.target < 2 ^ 64) (h : reading.toNat = s.target / channels - d) :
    samples reading = s.target - channels * d := by
  obtain ⟨half, hhalf⟩ := heven
  have hframes : s.target / channels = half := by
    rw [hhalf, channels]
    omega
  rw [samples, h, hframes, hhalf, channels]
  omega

theorem Rested.acts {d low : ℕ} {held : Bool} {s t : CushionControl} (hs : Rested d s)
    (hlow : low = s.target - channels * d) (h : Acts s low held t) :
    Rested d t ∧ t.target ≤ s.target := by
  have hsettled := hs.settled
  have hclear := hs.clear
  obtain ⟨hsame, ⟨htarget, hwanted⟩ | hgrows | hback⟩ := h
  · refine ⟨⟨?_, ?_⟩, htarget.le⟩
    · rw [htarget, hwanted, hsettled]
    · rw [hsame.callback, htarget]
      exact hclear
  · -- the dip leaves the reading over the line
    have hunder := hgrows.under
    rw [hlow] at hunder
    omega
  · have hover := hback.clear
    have hnext : t.target = s.target - min cushionStep (s.target - s.floor) :=
      hback.target.trans hback.wanted
    refine ⟨⟨hback.target, ?_⟩, hnext.le.trans (Nat.sub_le _ _)⟩
    rw [hsame.callback, hnext]
    omega

theorem Acts.rested_of_falls {d low : ℕ} {held : Bool} {s t : CushionControl}
    (hlow : low = s.target - channels * d) (h : Acts s low held t) (hfalls : t.target < s.target) :
    Rested d t := by
  obtain ⟨hsame, ⟨htarget, -⟩ | hgrows | hback⟩ := h
  · exact absurd htarget hfalls.ne
  · obtain ⟨n, -, hwants⟩ := hgrows.wanted
    have hroom := hgrows.room
    have hup : s.target ≤ t.target := by
      rw [hgrows.target, hwants]
      exact le_min (Nat.le_add_right _ _) (le_min (Nat.le_add_right _ _) hroom.le)
    exact absurd hfalls (Nat.not_lt_of_le hup)
  · have hover := hback.clear
    have hnext : t.target = s.target - min cushionStep (s.target - s.floor) :=
      hback.target.trans hback.wanted
    refine ⟨hback.target, ?_⟩
    rw [hsame.callback, hnext]
    omega

theorem setAuto_of_auto {s : CushionControl} {auto : Bool} (hs : s.auto = true)
    (hnext : (s.setAuto auto).auto = true) : s.setAuto auto = s := by
  have hsame : s.auto = auto := by
    by_contra hne
    rw [setAuto, if_neg hne] at hnext
    exact hne (hs.trans hnext.symm)
  exact if_pos hsame

section Step
variable {deviceFrames : UInt32} {d : ℕ} {s : CushionControl} {call : Call}
  (hbounds : InBounds deviceFrames s) (hwhole : Whole s) (hauto : s.auto = true)
  (hnext : (s.step call).auto = true) (hdips : Dips d s call)
include hbounds hwhole hauto hnext hdips

theorem Rested.step (hs : Rested d s) :
    Rested d (s.step call) ∧ (s.step call).target ≤ s.target := by
  cases call with
  | setAuto auto =>
    have hsame : s.step (.setAuto auto) = s := setAuto_of_auto hauto hnext
    rw [hsame]
    exact ⟨hs, Nat.le_refl _⟩
  | observe time low held =>
    rcases observe_settled hs.settled time low held with hstill | ⟨r, hread, hfresh, hacts⟩
    · obtain ⟨hsame, htarget, hwanted⟩ := hstill
      have hacts : Acts s (s.target - channels * d) held (s.step (.observe time low held)) :=
        .still hsame htarget hwanted
      exact hs.acts rfl hacts
    · have hframes := hdips r hread hfresh hs.settled
      exact hs.acts (samples_of_dip hwhole.target hbounds.target_lt hframes) hacts

theorem rested_of_falls (hfalls : (s.step call).target < s.target) : Rested d (s.step call) := by
  cases call with
  | setAuto auto =>
    have hsame : s.step (.setAuto auto) = s := setAuto_of_auto hauto hnext
    rw [hsame] at hfalls
    exact absurd hfalls (Nat.lt_irrefl _)
  | observe time low held =>
    rcases Nat.lt_or_eq_of_le hbounds.target_le with hlt | heq
    · have hup : s.target ≤ (s.observe time low held).target := by
        rw [(observe_walks hlt time low held).target]
        exact le_min (Nat.le_add_right _ _) hbounds.target_le
      exact absurd hfalls (Nat.not_lt_of_le hup)
    · rcases observe_settled heq time low held with ⟨_, htarget, _⟩ | ⟨r, hread, hfresh, hacts⟩
      · exact absurd htarget hfalls.ne
      · have hframes := hdips r hread hfresh heq
        exact hacts.rested_of_falls
          (samples_of_dip hwhole.target hbounds.target_lt hframes) hfalls

end Step

def history (s : CushionControl) (calls : ℕ → Call) : ℕ → CushionControl
  | 0 => s
  | n + 1 => (s.history calls n).step (calls n)

theorem history_inBounds {deviceFrames : UInt32} {s : CushionControl}
    (hs : InBounds deviceFrames s) (calls : ℕ → Call) (n : ℕ) :
    InBounds deviceFrames (s.history calls n) := by
  induction n with
  | zero => exact hs
  | succ n ih => exact InBounds.step _ _ ih

theorem history_whole {deviceFrames : UInt32} {s : CushionControl}
    (hbounds : InBounds deviceFrames s) (hs : Whole s) (calls : ℕ → Call) (n : ℕ) :
    Whole (s.history calls n) := by
  induction n with
  | zero => exact hs
  | succ n ih => exact ih.step (history_inBounds hbounds calls n).target_le _

/-- From `N` on the depth is free to move over a ring that dips by `d` frames. -/
def DipsFrom (d N : ℕ) (s : CushionControl) (calls : ℕ → Call) : Prop :=
  ∀ n, N ≤ n → (s.history calls n).auto = true ∧ Dips d (s.history calls n) (calls n)

theorem history_rested {deviceFrames : UInt32} {s : CushionControl} {calls : ℕ → Call} {d N m : ℕ}
    (hbounds : InBounds deviceFrames s) (hwhole : Whole s) (hdips : DipsFrom d N s calls)
    (hm : N ≤ m) (hfalls : (s.history calls (m + 1)).target < (s.history calls m).target) (k : ℕ) :
    Rested d (s.history calls (m + 1 + k)) := by
  induction k with
  | zero =>
    have hnext := (hdips (m + 1) (Nat.le_succ_of_le hm)).1
    exact rested_of_falls (history_inBounds hbounds calls m) (history_whole hbounds hwhole calls m)
      (hdips m hm).1 hnext (hdips m hm).2 hfalls
  | succ k ih =>
    have hn : N ≤ m + 1 + k := hm.trans (by omega)
    have hnext := (hdips (m + 1 + k + 1) (Nat.le_succ_of_le hn)).1
    exact (Rested.step (history_inBounds hbounds calls _) (history_whole hbounds hwhole calls _)
      (hdips _ hn).1 hnext (hdips _ hn).2 ih).1

theorem history_falls {deviceFrames : UInt32} {s : CushionControl} {calls : ℕ → Call} {d N m : ℕ}
    (hbounds : InBounds deviceFrames s) (hwhole : Whole s) (hdips : DipsFrom d N s calls)
    (hm : N ≤ m) (hfalls : (s.history calls (m + 1)).target < (s.history calls m).target) (n : ℕ)
    (hn : m ≤ n) : (s.history calls (n + 1)).target ≤ (s.history calls n).target := by
  rcases Nat.lt_or_eq_of_le hn with hlt | rfl
  · obtain ⟨k, rfl⟩ := Nat.exists_eq_add_of_le hlt
    have hrested := history_rested hbounds hwhole hdips hm hfalls k
    have hfrom : N ≤ m.succ + k := hm.trans (by omega)
    have hnext := (hdips _ (Nat.le_succ_of_le hfrom)).1
    exact (Rested.step (history_inBounds hbounds calls _) (history_whole hbounds hwhole calls _)
      (hdips _ hfrom).1 hnext (hdips _ hfrom).2 hrested).2
  · exact hfalls.le

theorem history_settles {deviceFrames : UInt32} {s : CushionControl} {calls : ℕ → Call} {d N : ℕ}
    (hbounds : InBounds deviceFrames s) (hwhole : Whole s) (hdips : DipsFrom d N s calls) :
    ∃ M, ∀ n, M ≤ n → (s.history calls n).target = (s.history calls M).target := by
  have hbounded : ∀ n, (s.history calls (N + n)).target ≤ playoutCapacity deviceFrames := fun n =>
    have hn := history_inBounds hbounds calls (N + n)
    hn.target_le.trans (hn.wanted_le.trans hn.ceiling)
  have hturn : ∀ m, (s.history calls (N + (m + 1))).target < (s.history calls (N + m)).target →
      ∀ n, m ≤ n →
        (s.history calls (N + (n + 1))).target ≤ (s.history calls (N + n)).target := by
    intro m hfalls n hn
    exact history_falls hbounds hwhole hdips (Nat.le_add_right N m) hfalls (N + n)
      (Nat.add_le_add_left hn N)
  obtain ⟨M, hM⟩ := settles_of_turn hbounded hturn
  refine ⟨N + M, fun n hn => ?_⟩
  obtain ⟨k, rfl⟩ := Nat.exists_eq_add_of_le hn
  rw [Nat.add_assoc]
  exact hM (M + k) (Nat.le_add_right M k)

/-- Whatever is read and asked, the depth stays between the floor and the ceiling, moves a frame at
a time and not down while something is recorded; over a constant dip it comes to rest. -/
theorem cushion_stays_and_settles (deviceFrames : UInt32) (auto : Bool) (calls : ℕ → Call) :
    (∀ n, InBounds deviceFrames ((new deviceFrames auto).history calls n)) ∧
    (∀ n time low held, calls n = .observe time low held →
      OneFrame held ((new deviceFrames auto).history calls n)
        ((new deviceFrames auto).history calls (n + 1))) ∧
    ∀ d N, DipsFrom d N (new deviceFrames auto) calls →
      (∃ M, ∀ n, M ≤ n → ((new deviceFrames auto).history calls n).target =
        ((new deviceFrames auto).history calls M).target) ∧
      ∀ m, N ≤ m → ((new deviceFrames auto).history calls (m + 1)).target <
          ((new deviceFrames auto).history calls m).target →
        ∀ n, m ≤ n → ((new deviceFrames auto).history calls (n + 1)).target ≤
          ((new deviceFrames auto).history calls n).target := by
  have hbounds := new_inBounds deviceFrames auto
  have hwhole := new_whole deviceFrames auto
  refine ⟨history_inBounds hbounds calls, ?_, fun d N hdips => ⟨?_, ?_⟩⟩
  · -- one observation moves the depth by one at most, from within the bounds
    intro n time low held hcall
    have hle := (history_inBounds hbounds calls n).target_le
    have hone := observe_oneFrame hle time low held
    rw [history, hcall]
    exact hone
  · exact history_settles hbounds hwhole hdips
  · intro m hm hfalls n hn
    exact history_falls hbounds hwhole hdips hm hfalls n hn

/-- What a ring that dips by a hundred frames reads. -/
def reading (s : CushionControl) : UInt64 := UInt64.ofNat (s.target / channels - 100)

def dipping : ℕ → CushionControl
  | 0 => new 128 true
  | n + 1 => (dipping n).observe n (some (reading (dipping n))) false

def dipped (n : ℕ) : Call := .observe n (some (reading (dipping n))) false

theorem history_dipped (n : ℕ) : (new 128 true).history dipped n = dipping n := by
  induction n with
  | zero => rfl
  | succ n ih =>
    rw [history, ih]
    rfl

theorem dipsFrom_dipped : DipsFrom 100 0 (new 128 true) dipped := by
  have hbounds : ∀ n, InBounds 128 (dipping n) := fun n =>
    history_dipped n ▸ history_inBounds (new_inBounds 128 true) dipped n
  have hauto : ∀ n, (dipping n).auto = true := by
    intro n
    induction n with
    | zero => rfl
    | succ n ih => exact (observe_sameStream (hbounds n).target_le n _ false).auto.trans ih
  intro n _
  rw [history_dipped]
  refine ⟨hauto n, fun r hr _ _ => ?_⟩
  obtain rfl := Option.some.inj hr
  have hlt := (hbounds n).target_lt
  rw [reading, UInt64.toNat_ofNat', Nat.mod_eq_of_lt]
  rw [channels]
  omega

theorem cushion_stays_and_settles_dipped :
    (∀ n, InBounds 128 (dipping n)) ∧
    ∃ M, ∀ n, M ≤ n → (dipping n).target = (dipping M).target := by
  obtain ⟨hbounds, -, hsettles⟩ := cushion_stays_and_settles 128 true dipped
  obtain ⟨M, hM⟩ := (hsettles 100 0 dipsFrom_dipped).1
  refine ⟨fun n => history_dipped n ▸ hbounds n, M, fun n hn => ?_⟩
  rw [← history_dipped, ← history_dipped]
  exact hM n hn

end CushionControl
end JamStream.Client
