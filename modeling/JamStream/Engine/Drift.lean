import Mathlib

/-! Audio paced by a sound card in front of a resampler paced by the session: the backlog between
the two, and what is dropped of it when nobody pulls. -/

namespace JamStream.Engine
variable {α : Type}

/-- The resampler with its steered ratio: what its next chunk takes, and what it makes of it. -/
structure Slip (α : Type) where
  State : Type
  Ratio : Type
  steer : Ratio → State → State
  slew : State → State
  inputFramesNext : State → ℕ
  processIntoBuffer : State → List α → State × List α

def bufferChunks : ℕ := 32

structure DriftCompensator (S : Slip α) where
  slip : S.State
  channels : ℕ
  channels_pos : 0 < channels
  chunkOut : ℕ
  buf : List α

namespace DriftCompensator
variable {S : Slip α}

def new (slip : S.State) (chunkOut channels : ℕ) (hchannels : 0 < channels) : DriftCompensator S :=
  { slip, channels, channels_pos := hchannels, chunkOut, buf := [] }

def capacity (c : DriftCompensator S) : ℕ := bufferChunks * c.chunkOut * c.channels

def steer (c : DriftCompensator S) (ratio : S.Ratio) : DriftCompensator S :=
  { c with slip := S.steer ratio c.slip }

def push (c : DriftCompensator S) (samples : List α) : DriftCompensator S :=
  if c.capacity ≤ samples.length then
    { c with buf := samples.drop (samples.length - c.capacity) }
  else
    { c with buf := c.buf.drop (c.buf.length + samples.length - c.capacity) ++ samples }

def need (c : DriftCompensator S) : ℕ := S.inputFramesNext (S.slew c.slip) * c.channels

def pullFrame (c : DriftCompensator S) : DriftCompensator S × Option (List α) :=
  let slewed := { c with slip := S.slew c.slip }
  if c.buf.length < c.need then (slewed, none)
  else
    let made := S.processIntoBuffer slewed.slip (c.buf.take c.need)
    ({ slewed with slip := made.1, buf := c.buf.drop c.need }, some made.2)

inductive Call (S : Slip α)
  | push (samples : List α)
  | pull
  | steer (ratio : S.Ratio)

def step (c : DriftCompensator S) : Call S → DriftCompensator S
  | .push samples => c.push samples
  | .pull => c.pullFrame.1
  | .steer ratio => c.steer ratio

/-- A compensator with what went into it so far, and how much of that was pulled and dropped. -/
structure Track (S : Slip α) where
  comp : DriftCompensator S
  pushed : List α
  consumed : ℕ
  discarded : ℕ

def Track.step (t : Track S) (call : Call S) : Track S :=
  let next := t.comp.step call
  match call with
  | .push samples => { t with
      comp := next
      pushed := t.pushed ++ samples
      discarded := t.discarded + (t.comp.buf.length + samples.length - next.buf.length) }
  | .pull => { t with
      comp := next
      consumed := t.consumed + (t.comp.buf.length - next.buf.length) }
  | .steer _ => { t with comp := next }

def track (c : DriftCompensator S) (calls : List (Call S)) : Track S :=
  calls.foldl Track.step { comp := c, pushed := [], consumed := 0, discarded := 0 }

/-- Every push is whole frames, which is what `push` asks of its callers. -/
def WholePushes (channels : ℕ) (calls : List (Call S)) : Prop :=
  ∀ samples, .push samples ∈ calls → channels ∣ samples.length

/-- Nothing but the backlog and the resampler's state changes in a call. -/
structure SameBuild (c d : DriftCompensator S) : Prop where
  channels : d.channels = c.channels
  chunkOut : d.chunkOut = c.chunkOut

theorem SameBuild.capacity {c d : DriftCompensator S} (h : SameBuild c d) :
    d.capacity = c.capacity := by
  rw [DriftCompensator.capacity, DriftCompensator.capacity, h.channels, h.chunkOut]

theorem push_sameBuild (c : DriftCompensator S) (samples : List α) :
    SameBuild c (c.push samples) := by
  rw [push]
  split <;> exact ⟨rfl, rfl⟩

theorem pullFrame_sameBuild (c : DriftCompensator S) : SameBuild c c.pullFrame.1 := by
  simp only [pullFrame]
  split <;> exact ⟨rfl, rfl⟩

theorem push_buf (c : DriftCompensator S) (samples : List α) : (c.push samples).buf =
      (c.buf ++ samples).drop (c.buf.length + samples.length - c.capacity) := by
  rw [push]
  split
  next hlong =>
    have hpast : c.buf.length ≤ c.buf.length + samples.length - c.capacity := by omega
    have hrest : c.buf.length + samples.length - c.capacity - c.buf.length =
        samples.length - c.capacity := by omega
    rw [List.drop_append, List.drop_eq_nil_of_le hpast, List.nil_append, hrest]
  next hshort =>
    have hinside : c.buf.length + samples.length - c.capacity ≤ c.buf.length := by omega
    exact (List.drop_append_of_le_length hinside).symm

theorem length_push_buf (c : DriftCompensator S) (samples : List α) :
    (c.push samples).buf.length = min (c.buf.length + samples.length) c.capacity := by
  rw [push_buf c samples, List.length_drop, List.length_append]
  omega

theorem pullFrame_buf (c : DriftCompensator S) : ∃ frames,
    frames * c.channels ≤ c.buf.length ∧
      c.pullFrame.1.buf = c.buf.drop (frames * c.channels) := by
  simp only [pullFrame]
  split
  · exact ⟨0, by rw [Nat.zero_mul]; exact ⟨Nat.zero_le _, rfl⟩⟩
  next henough => exact ⟨_, Nat.le_of_not_lt henough, rfl⟩

/-- What is held is the end of what was pushed; the rest was pulled or dropped. -/
structure Recent (c : DriftCompensator S) (t : Track S) : Prop where
  same : SameBuild c t.comp
  held : ∃ gone, t.pushed = gone ++ t.comp.buf ∧ gone.length = t.consumed + t.discarded
  fits : t.comp.buf.length ≤ c.capacity

/-- No frame is cut, neither in what is held nor in what went before it. -/
structure Whole (channels : ℕ) (t : Track S) : Prop where
  held : channels ∣ t.comp.buf.length
  pushed : channels ∣ t.pushed.length

theorem Recent.push {c : DriftCompensator S} {t : Track S} (ht : Recent c t) (samples : List α) :
    Recent c (t.step (.push samples)) := by
  have hbuf := push_buf t.comp samples
  have hlen := length_push_buf t.comp samples
  obtain ⟨gone, hpushed, hgone⟩ := ht.held
  have hbuild := push_sameBuild t.comp samples
  refine ⟨⟨hbuild.channels.trans ht.same.channels, hbuild.chunkOut.trans ht.same.chunkOut⟩, ?_, ?_⟩
  · let overflow := t.comp.buf.length + samples.length - t.comp.capacity
    refine ⟨gone ++ (t.comp.buf ++ samples).take overflow, ?_, ?_⟩
    · change t.pushed ++ samples = _ ++ (t.comp.push samples).buf
      rw [hbuf, List.append_assoc, List.take_append_drop, ← List.append_assoc, hpushed]
    · change _ = t.consumed + (t.discarded +
        (t.comp.buf.length + samples.length - (t.comp.push samples).buf.length))
      rw [hlen, List.length_append, List.length_take, List.length_append, hgone]
      omega
  · change (t.comp.push samples).buf.length ≤ _
    rw [hlen, ht.same.capacity]
    exact Nat.min_le_right _ _

theorem Recent.pull {c : DriftCompensator S} {t : Track S} (ht : Recent c t) :
    Recent c (t.step .pull) := by
  obtain ⟨frames, henough, hbuf⟩ := pullFrame_buf t.comp
  obtain ⟨gone, hpushed, hgone⟩ := ht.held
  have hbuild := pullFrame_sameBuild t.comp
  have hlen : t.comp.pullFrame.1.buf.length = t.comp.buf.length - frames * t.comp.channels := by
    rw [hbuf, List.length_drop]
  refine ⟨⟨hbuild.channels.trans ht.same.channels, hbuild.chunkOut.trans ht.same.chunkOut⟩, ?_, ?_⟩
  · refine ⟨gone ++ t.comp.buf.take (frames * t.comp.channels), ?_, ?_⟩
    · change t.pushed = _ ++ t.comp.pullFrame.1.buf
      rw [hbuf, List.append_assoc, List.take_append_drop]
      exact hpushed
    · change _ = t.consumed + (t.comp.buf.length - t.comp.pullFrame.1.buf.length) + t.discarded
      rw [hlen, List.length_append, List.length_take_of_le henough, hgone]
      omega
  · change t.comp.pullFrame.1.buf.length ≤ _
    exact hlen.le.trans ((Nat.sub_le _ _).trans ht.fits)

theorem Recent.step {c : DriftCompensator S} {t : Track S} (ht : Recent c t) (call : Call S) :
    Recent c (t.step call) := by
  cases call with
  | push samples => exact ht.push samples
  | pull => exact ht.pull
  | steer ratio => exact ⟨⟨ht.same.channels, ht.same.chunkOut⟩, ht.held, ht.fits⟩

theorem Whole.step {c : DriftCompensator S} {t : Track S} (hsame : Recent c t)
    (ht : Whole c.channels t) {call : Call S}
    (hcall : ∀ samples, call = .push samples → c.channels ∣ samples.length) :
    Whole c.channels (t.step call) := by
  cases call with
  | push samples =>
    have hsamples := hcall samples rfl
    refine ⟨?_, ?_⟩
    · change c.channels ∣ (t.comp.push samples).buf.length
      rw [length_push_buf t.comp samples]
      -- the capacity is whole frames, so trimming to it is
      rcases min_choice (t.comp.buf.length + samples.length) t.comp.capacity with h | h
      · rw [h]
        exact ht.held.add hsamples
      · rw [h, hsame.same.capacity]
        exact Nat.dvd_mul_left _ _
    · change c.channels ∣ (t.pushed ++ samples).length
      rw [List.length_append]
      exact ht.pushed.add hsamples
  | pull =>
    obtain ⟨frames, henough, hbuf⟩ := pullFrame_buf t.comp
    refine ⟨?_, ht.pushed⟩
    change c.channels ∣ t.comp.pullFrame.1.buf.length
    rw [hbuf, List.length_drop, hsame.same.channels]
    exact Nat.dvd_sub ht.held (Nat.dvd_mul_left _ _)
  | steer ratio => exact ⟨ht.held, ht.pushed⟩

theorem foldl_recent {c : DriftCompensator S} (calls : List (Call S)) {t : Track S}
    (ht : Recent c t) : Recent c (calls.foldl Track.step t) := by
  induction calls generalizing t with
  | nil => exact ht
  | cons call calls ih => exact ih (ht.step call)

theorem foldl_whole {c : DriftCompensator S} (calls : List (Call S)) {t : Track S}
    (hrecent : Recent c t) (ht : Whole c.channels t) (hwhole : WholePushes c.channels calls) :
    Whole c.channels (calls.foldl Track.step t) := by
  induction calls generalizing t with
  | nil => exact ht
  | cons call calls ih =>
    have hcall : ∀ samples, call = .push samples → c.channels ∣ samples.length := by
      rintro samples rfl
      exact hwhole samples List.mem_cons_self
    exact ih (hrecent.step call) (ht.step hrecent hcall)
      fun samples hmem => hwhole samples (List.mem_cons_of_mem _ hmem)

/-- A compensator holds the latest of what was pushed and not pulled, up to its capacity, and cuts
no frame as long as it is handed none that is cut. -/
theorem holds_whole_recent_frames (slip : S.State) (chunkOut channels : ℕ)
    (hchannels : 0 < channels) (calls : List (Call S)) :
    Recent (new slip chunkOut channels hchannels)
        ((new slip chunkOut channels hchannels).track calls) ∧
      (WholePushes channels calls →
        Whole channels ((new slip chunkOut channels hchannels).track calls)) := by
  have hstart : Recent (new slip chunkOut channels hchannels)
      { comp := new slip chunkOut channels hchannels, pushed := [], consumed := 0,
        discarded := 0 } := ⟨⟨rfl, rfl⟩, ⟨[], rfl, rfl⟩, Nat.zero_le _⟩
  refine ⟨foldl_recent calls hstart, fun hwhole => ?_⟩
  exact foldl_whole (c := new slip chunkOut channels hchannels) calls hstart
    ⟨dvd_zero _, dvd_zero _⟩ hwhole

/-- Takes four frames for every chunk, whatever it is steered to. -/
def fourFrames : Slip ℕ where
  State := Unit
  Ratio := Unit
  steer := fun _ s => s
  slew := fun s => s
  inputFramesNext := fun _ => 4
  processIntoBuffer := fun s input => (s, input)

theorem holds_whole_recent_frames_stereo : 0 < 2 ∧
    Recent (S := fourFrames) (new () 4 2 (by decide))
      ((new () 4 2 (by decide)).track [.push [1, 2, 3, 4], .pull]) ∧
    Whole (S := fourFrames) 2 ((new () 4 2 (by decide)).track [.push [1, 2, 3, 4], .pull]) := by
  have hboth := holds_whole_recent_frames (S := fourFrames) () 4 2 (by decide)
    [.push [1, 2, 3, 4], .pull]
  refine ⟨by decide, hboth.1, hboth.2 ?_⟩
  intro samples hmem
  rcases List.mem_cons.mp hmem with heq | hrest
  · cases heq
    decide
  · cases List.mem_singleton.mp hrest

set_option maxRecDepth 4000 in
/-- A compensator that dropped a sample is the one that dropped none, so nothing counts it; and a
push of half a frame leaves half a frame. -/
theorem discards_uncounted :
    (¬∃ count : DriftCompensator fourFrames → ℕ, ∀ calls,
      count ((new () 4 1 (by decide)).track calls).comp =
        ((new () 4 1 (by decide)).track calls).discarded) ∧
    ¬2 ∣ ((new (S := fourFrames) () 4 2 (by decide)).track [.push [0]]).comp.buf.length := by
  refine ⟨?_, by decide⟩
  rintro ⟨count, hcount⟩
  have hfull := hcount [.push (List.replicate 128 0)]
  have hmore := hcount [.push (List.replicate 129 0)]
  have hsame : ((new (S := fourFrames) () 4 1 (by decide)).track
      [.push (List.replicate 128 0)]).comp = ((new (S := fourFrames) () 4 1 (by decide)).track
      [.push (List.replicate 129 0)]).comp := rfl
  rw [hsame, hmore] at hfull
  exact absurd hfull (by decide)

end DriftCompensator
end JamStream.Engine
