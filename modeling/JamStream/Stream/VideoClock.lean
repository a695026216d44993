import JamStream.Stream.Isolation

/-! The video clock follows the audio's samples, however they are pushed; and every frame that
came due for an encoder is accounted for. The account is kept beside the pipeline, from what
each call finds and leaves. -/

namespace JamStream.Stream
open Runs

/-- What the host answered to a run of frames, up to a write that failed. -/
def outcomes (w : Writes) : List ℕ → List Feed
  | [] => []
  | frame :: frames =>
    match w.frame frame with
    | .ok feed => feed :: outcomes w frames
    | .error _ => []

structure Tally where
  pushes : List ℕ
  /-- The frames that came due. -/
  frames : List ℕ
  written : ℕ
  /-- Those of a run that stood at a failed write or behind it. -/
  lost : ℕ
  /-- The drop count the encoder started with. -/
  before : ℕ
deriving DecidableEq

namespace Tally

def start (droppedFrames : ℕ) : Tally :=
  { pushes := [], frames := [], written := 0, lost := 0, before := droppedFrames }

def push (t : Tally) (w : Writes) (samples : ℕ) (frames : List ℕ) : Tally :=
  { t with
    pushes := t.pushes ++ [samples]
    frames := t.frames ++ frames
    written := t.written + (outcomes w frames).count .queued
    lost := t.lost + (frames.length - (outcomes w frames).length) }

/-- A push counts once its audio was written; a new encoder starts a new account. -/
def next (t : Tally) (s : Pipeline) : Pipeline.Event → Tally
  | .pushTick w _ samples =>
    if s.encoder.isSome && w.audio.isNone then
      t.push w samples (s.cadence.advance samples).2.toList
    else t
  | e =>
    if s.encoder.isNone && (s.step e).encoder.isSome then start (s.step e).droppedFrames else t

end Tally

namespace Pipeline

def stepCounted (x : Pipeline × Tally) (e : Event) : Pipeline × Tally :=
  (x.1.step e, x.2.next x.1 e)

def counted (cfg : StreamConfig) (events : List Event) : Pipeline × Tally :=
  run stepCounted (new cfg, .start 0) events

variable {s s' : Pipeline} {t : Tally}

/-- Of any call but a push: the drop count stays, and an encoder keeps its clock or starts at
zero. -/
structure Carries (s s' : Pipeline) : Prop where
  dropped : s'.droppedFrames = s.droppedFrames
  clock : s'.encoder.isSome →
    (s.encoder.isSome ∧ s'.cadence = s.cadence) ∨
      (s.encoder = none ∧ s'.cadence = .new s.cfg.fps)

theorem Carries.refl (s : Pipeline) : s.Carries s := ⟨rfl, fun h => .inl ⟨h, rfl⟩⟩

theorem Carries.trans_same {s'' : Pipeline} (h : s.Carries s') (hencoder : s''.encoder = s'.encoder)
    (hcadence : s''.cadence = s'.cadence) (hdropped : s''.droppedFrames = s'.droppedFrames) :
    s.Carries s'' := by
  refine ⟨hdropped.trans h.dropped, fun hsome => ?_⟩
  rw [hcadence]
  exact h.clock (hencoder ▸ hsome)

theorem Carries.of_same {r : Pipeline} (h : r.Carries s') (hencoder : s.encoder = r.encoder)
    (hcadence : s.cadence = r.cadence) (hdropped : s.droppedFrames = r.droppedFrames)
    (hcfg : s.cfg = r.cfg) : s.Carries s' := by
  refine ⟨h.dropped.trans hdropped.symm, fun hsome => ?_⟩
  rw [hencoder, hcadence, hcfg]
  exact h.clock hsome

theorem carries_none (hencoder : s'.encoder = none) (hdropped : s'.droppedFrames = s.droppedFrames) :
    s.Carries s' := by
  refine ⟨hdropped, fun hsome => ?_⟩
  rw [hencoder] at hsome
  cases hsome

theorem dropEncoder_spec (s : Pipeline) :
    s.dropEncoder.encoder = none ∧ s.dropEncoder.droppedFrames = s.droppedFrames := by
  rcases hencoder : s.encoder with _ | enc
  · rw [dropEncoder, hencoder]
    exact ⟨hencoder, rfl⟩
  · rw [dropEncoder, hencoder]
    exact ⟨rfl, rfl⟩

theorem carries_spawnEncoder (hnone : s.encoder = none) (c : Conditions) (nowMs : UInt64) :
    s.Carries (s.spawnEncoder c nowMs) := by
  unfold spawnEncoder
  rcases s.outside.spawn encoderSpec c.encoder with ⟨err | proc, outside⟩
  · exact carries_none hnone rfl
  · exact ⟨rfl, fun _ => .inr ⟨hnone, rfl⟩⟩

theorem carries_pollEncoder (s : Pipeline) (c : Conditions) (nowMs : UInt64) :
    s.Carries (s.pollEncoder c nowMs) := by
  rcases hencoder : s.encoder with _ | enc
  · rw [pollEncoder, hencoder]
    dsimp only
    split_ifs
    · exact .refl s
    · exact carries_spawnEncoder hencoder c nowMs
  · rw [pollEncoder, hencoder]
    dsimp only
    rcases s.outside.poll enc.proc with _ | reason
    · dsimp only
      split_ifs
      · exact ⟨rfl, fun _ => .inl ⟨by rw [hencoder]; rfl, rfl⟩⟩
      · exact .refl s
    · obtain ⟨hnone, hdropped⟩ := dropEncoder_spec s
      exact carries_none hnone hdropped

theorem carries_poll (s : Pipeline) (c : Conditions) (nowMs : UInt64) :
    s.Carries (s.poll c nowMs) := by
  unfold poll
  split_ifs
  · exact (carries_pollEncoder s c nowMs).trans_same rfl rfl rfl
  · exact .refl s

theorem carries_addDestination (s : Pipeline) (c : Conditions) (nowMs : UInt64)
    (id : Protocol.DestinationId) (platform : Protocol.StreamPlatform) (key : String) :
    s.Carries (s.addDestination c nowMs id platform key).2 := by
  unfold addDestination
  rcases s.cfg.catalog platform with _ | spec
  · exact .refl s
  · rcases onDestination id (Destination.replace c platform key) s.dests s.outside with
      _ | ⟨dests, outside⟩
    · dsimp only
      split_ifs
      · exact .refl s
      · exact (carries_poll _ c nowMs).of_same rfl rfl rfl rfl
    · exact (carries_poll _ c nowMs).of_same rfl rfl rfl rfl

theorem stopEncoder_spec (s : Pipeline) :
    s.stopEncoder.encoder = none ∧ s.stopEncoder.droppedFrames = s.droppedFrames := by
  rcases hencoder : s.encoder with _ | enc
  · rw [stopEncoder, hencoder]
    exact ⟨rfl, rfl⟩
  · rw [stopEncoder, hencoder]
    exact dropEncoder_spec s

theorem carries_stop (s : Pipeline) (c : Conditions) : s.Carries (s.stop c) := by
  obtain ⟨hnone, hdropped⟩ :=
    stopEncoder_spec ({ s with started := false }.eachDestination (Destination.idle c))
  exact carries_none hnone hdropped

theorem carries_step (s : Pipeline) (e : Event)
    (hpush : ∀ w nowMs samples, e ≠ .pushTick w nowMs samples) :
    s.Carries (s.step e) := by
  cases e with
  | apply c nowMs op =>
    cases op with
    | addDestination id platform key => exact carries_addDestination s c nowMs id platform key
    | removeDestination id =>
      show s.Carries (s.removeDestination c id).2
      unfold removeDestination
      split
      · exact .refl s
      · exact (Carries.refl s).trans_same rfl rfl rfl
    | start =>
      exact (carries_poll { s with started := true, encoderRetryAtMs := none } c nowMs).of_same
        rfl rfl rfl rfl
    | stop => exact carries_stop s c
  | poll c nowMs => exact carries_poll s c nowMs
  | pushTick w nowMs samples => exact absurd rfl (hpush w nowMs samples)
  | exits proc reason => exact (Carries.refl s).trans_same rfl rfl rfl
  | writes proc text => exact (Carries.refl s).trans_same rfl rfl rfl

theorem encoderFailed_spec (s : Pipeline) (nowMs : UInt64) (reason : String) :
    (s.encoderFailed nowMs reason).encoder = none ∧
    (s.encoderFailed nowMs reason).droppedFrames = s.droppedFrames :=
  dropEncoder_spec s

/-- The loop over a run's frames: drops are counted up to a write that fails, and it fails if
and only if some frame has no answer. -/
theorem pushFrames_spec (w : Writes) (nowMs : UInt64) (frames : List ℕ) :
    ∀ (s : Pipeline) (rendered : Bool),
      (pushFrames w nowMs rendered frames s).droppedFrames =
        s.droppedFrames + (outcomes w frames).count .dropped ∧
      ((pushFrames w nowMs rendered frames s).encoder.isSome →
        (pushFrames w nowMs rendered frames s).cadence = s.cadence ∧
          (outcomes w frames).length = frames.length) := by
  induction frames with
  | nil => exact fun s rendered => ⟨rfl, fun _ => ⟨rfl, rfl⟩⟩
  | cons frame frames ih =>
    intro s rendered
    have hrepeated : ∀ r : Pipeline,
        (if rendered then { s with repeatedFrames := s.repeatedFrames + 1 } else s) = r →
          r.droppedFrames = s.droppedFrames ∧ r.cadence = s.cadence := by
      rintro r rfl
      split_ifs <;> exact ⟨rfl, rfl⟩
    unfold pushFrames outcomes
    generalize hr : (if rendered then { s with repeatedFrames := s.repeatedFrames + 1 } else s) = r
    obtain ⟨hdropped, hcadence⟩ := hrepeated r hr
    rcases w.frame frame with err | _ | _
    · obtain ⟨hnone, hkept⟩ := encoderFailed_spec r nowMs ("video write failed: " ++ err)
      refine ⟨hkept.trans hdropped, fun hsome => ?_⟩
      rw [hnone] at hsome
      cases hsome
    · obtain ⟨hcount, hlive⟩ := ih r true
      refine ⟨?_, fun hsome => ?_⟩
      · rw [hcount, hdropped]
        rfl
      · exact ⟨(hlive hsome).1.trans hcadence, congrArg (· + 1) (hlive hsome).2⟩
    · obtain ⟨hcount, hlive⟩ := ih { r with droppedFrames := r.droppedFrames + 1 } true
      refine ⟨?_, fun hsome => ?_⟩
      · rw [hcount, List.count_cons_self]
        show r.droppedFrames + 1 + _ = _
        rw [hdropped, Nat.add_assoc, Nat.add_comm 1]
      · exact ⟨(hlive hsome).1.trans hcadence, congrArg (· + 1) (hlive hsome).2⟩

theorem count_outcomes (answers : List Feed) :
    answers.count .queued + answers.count .dropped = answers.length := by
  induction answers with
  | nil => rfl
  | cons feed answers ih =>
    cases feed
    · rw [List.count_cons_self, List.count_cons_of_ne (by decide), List.length_cons, ← ih]
      exact Nat.add_right_comm _ _ _
    · rw [List.count_cons_of_ne (by decide), List.count_cons_self, List.length_cons, ← ih]
      rfl

theorem length_outcomes_le (w : Writes) (frames : List ℕ) :
    (outcomes w frames).length ≤ frames.length := by
  induction frames with
  | nil => exact le_rfl
  | cons frame frames ih =>
    rw [outcomes]
    rcases w.frame frame with err | feed
    · exact Nat.zero_le _
    · exact Nat.succ_le_succ ih

/-- The account of the encoder that was started last, alive or not. -/
structure Accounted (s : Pipeline) (t : Tally) : Prop where
  clock : s.encoder.isSome → s.cadence = ((VideoCadence.new s.cfg.fps).feed t.pushes).1
  frames : t.frames = ((VideoCadence.new s.cfg.fps).feed t.pushes).2
  sum : t.written + s.droppedFrames + t.lost = t.before + t.frames.length
  before : t.before ≤ s.droppedFrames
  alive : s.encoder.isSome → t.lost = 0

theorem Accounted.carries (h : s.Accounted t) {e : Event} (hcarries : s.Carries (s.step e))
    (hpush : ∀ w nowMs samples, e ≠ .pushTick w nowMs samples) :
    (s.step e).Accounted (t.next s e) := by
  have hcfg := step_cfg s e
  have hnext : t.next s e = if s.encoder.isNone && (s.step e).encoder.isSome then
      Tally.start (s.step e).droppedFrames else t := by
    cases e with
    | pushTick w nowMs samples => exact absurd rfl (hpush w nowMs samples)
    | _ => rfl
  rw [hnext]
  by_cases hnew : (s.encoder.isNone && (s.step e).encoder.isSome) = true
  · obtain ⟨hnone, hsome⟩ := Bool.and_eq_true_iff.mp hnew
    rw [if_pos hnew]
    constructor
    · intro _
      rcases hcarries.clock hsome with ⟨hold, -⟩ | ⟨-, hclock⟩
      · rw [Option.isNone_iff_eq_none.mp hnone] at hold
        cases hold
      · rw [hclock, hcfg]
        rfl
    · rfl
    · show 0 + (s.step e).droppedFrames + 0 = (s.step e).droppedFrames + 0
      rw [Nat.zero_add]
    · exact le_rfl
    · exact fun _ => rfl
  · rw [if_neg hnew]
    have hold : (s.step e).encoder.isSome → s.encoder.isSome ∧ (s.step e).cadence = s.cadence := by
      intro hsome
      rcases hcarries.clock hsome with hold | ⟨hnone, -⟩
      · exact hold
      · refine absurd (Bool.and_eq_true_iff.mpr ⟨?_, hsome⟩) hnew
        rw [hnone]
        rfl
    constructor
    · intro hsome
      rw [(hold hsome).2, hcfg]
      exact h.clock (hold hsome).1
    · rw [hcfg]
      exact h.frames
    · rw [hcarries.dropped]
      exact h.sum
    · rw [hcarries.dropped]
      exact h.before
    · exact fun hsome => h.alive (hold hsome).1

theorem Accounted.pushTick (h : s.Accounted t) (w : Writes) (nowMs : UInt64) (samples : ℕ) :
    (s.pushTick w nowMs samples).Accounted (t.next s (.pushTick w nowMs samples)) := by
  have hcfg : (s.pushTick w nowMs samples).cfg = s.cfg := step_cfg s (.pushTick w nowMs samples)
  rcases hencoder : s.encoder with _ | enc
  · rw [Pipeline.pushTick, Tally.next, hencoder]
    exact h
  · rcases haudio : w.audio with _ | err
    · have hsome : s.encoder.isSome := by rw [hencoder]; rfl
      have hpush : s.pushTick w nowMs samples = pushFrames w nowMs false
          (s.cadence.advance samples).2.toList
          { s with cadence := (s.cadence.advance samples).1 } := by
        rw [Pipeline.pushTick, hencoder, haudio]
      have hnext : t.next s (.pushTick w nowMs samples) =
          t.push w samples (s.cadence.advance samples).2.toList := by
        rw [Tally.next, hencoder, haudio]
        rfl
      obtain ⟨hdropped, hlive⟩ := pushFrames_spec w nowMs (s.cadence.advance samples).2.toList
        { s with cadence := (s.cadence.advance samples).1 } false
      have hcount := count_outcomes (outcomes w (s.cadence.advance samples).2.toList)
      have hlength := length_outcomes_le w (s.cadence.advance samples).2.toList
      have hsum := h.sum
      rw [← hpush] at hdropped hlive
      rw [hnext]
      constructor
      · intro halive
        rw [(hlive halive).1, hcfg, Tally.push, VideoCadence.feed_concat, ← h.clock hsome]
      · rw [hcfg, Tally.push, VideoCadence.feed_concat, ← h.clock hsome, ← h.frames]
      · rw [hdropped]
        simp only [Tally.push, List.length_append]
        omega
      · rw [hdropped]
        exact h.before.trans (Nat.le_add_right _ _)
      · intro halive
        simp only [Tally.push, (hlive halive).2, h.alive hsome, Nat.sub_self]
    · have hpush : s.pushTick w nowMs samples =
          s.encoderFailed nowMs ("audio write failed: " ++ err) := by
        rw [Pipeline.pushTick, hencoder, haudio]
      have hnext : t.next s (.pushTick w nowMs samples) = t := by
        rw [Tally.next, hencoder, haudio]
        rfl
      obtain ⟨hnone, hdropped⟩ := encoderFailed_spec s nowMs ("audio write failed: " ++ err)
      rw [← hpush] at hnone hdropped
      rw [hnext]
      constructor
      · intro halive
        rw [hnone] at halive
        cases halive
      · rw [hcfg]
        exact h.frames
      · rw [hdropped]
        exact h.sum
      · rw [hdropped]
        exact h.before
      · intro halive
        rw [hnone] at halive
        cases halive

theorem Accounted.step (h : s.Accounted t) (e : Event) :
    (s.step e).Accounted (t.next s e) := by
  by_cases hpush : ∃ w nowMs samples, e = .pushTick w nowMs samples
  · obtain ⟨w, nowMs, samples, rfl⟩ := hpush
    exact h.pushTick w nowMs samples
  · have hother : ∀ w nowMs samples, e ≠ .pushTick w nowMs samples :=
      fun w nowMs samples heq => hpush ⟨w, nowMs, samples, heq⟩
    exact h.carries (carries_step s e hother) hother

theorem accounted_new (cfg : StreamConfig) : (new cfg).Accounted (.start 0) where
  clock := nofun
  frames := rfl
  sum := rfl
  before := le_rfl
  alive := nofun

theorem accounted (cfg : StreamConfig) (events : List Event) :
    (counted cfg events).1.Accounted (counted cfg events).2 :=
  run_invariant (P := fun x : Pipeline × Tally => x.1.Accounted x.2)
    (fun _ e h => h.step e) (accounted_new cfg) events

/-- Before the first push there is no frame. From then on the frames are those up to the
samples' share of a frame: the last one is presented within a frame of the audio. Of those that
came due for an encoder each was written or dropped, but for a write that failed, which ends the
encoder. -/
theorem frames_follow_samples (cfg : StreamConfig) (hfps : 0 < cfg.fps)
    (hdivides : cfg.fps ∣ sampleRate) :
    (∀ pushes : List ℕ,
      ((VideoCadence.new cfg.fps).feed pushes).2 =
        (if pushes = [] then [] else List.range (pushes.sum / (sampleRate / cfg.fps) + 1)) ∧
      ∀ k ∈ ((VideoCadence.new cfg.fps).feed pushes).2.getLast?,
        ((VideoCadence.new cfg.fps).feed pushes).1.ptsSamples k ≤ pushes.sum ∧
        pushes.sum < ((VideoCadence.new cfg.fps).feed pushes).1.ptsSamples k +
          sampleRate / cfg.fps) ∧
    ∀ events : List Event,
      (counted cfg events).2.frames =
        ((VideoCadence.new cfg.fps).feed (counted cfg events).2.pushes).2 ∧
      (counted cfg events).2.written +
          ((counted cfg events).1.droppedFrames - (counted cfg events).2.before) +
          (counted cfg events).2.lost = (counted cfg events).2.frames.length ∧
      ((counted cfg events).1.encoder.isSome →
        (counted cfg events).1.cadence =
            ((VideoCadence.new cfg.fps).feed (counted cfg events).2.pushes).1 ∧
        (counted cfg events).2.lost = 0) := by
  have hframe : 0 < sampleRate / cfg.fps := by
    obtain ⟨samples, hsamples⟩ := hdivides
    rw [hsamples, Nat.mul_div_cancel_left samples hfps]
    rcases Nat.eq_zero_or_pos samples with rfl | hpos
    · cases hsamples
    · exact hpos
  refine ⟨?_, ?_⟩
  · intro pushes
    by_cases hpushes : pushes = []
    · rw [hpushes]
      exact ⟨rfl, nofun⟩
    rw [VideoCadence.feed_new hpushes, if_neg hpushes]
    refine ⟨rfl, fun k hk => ?_⟩
    have hlast : k = pushes.sum / (sampleRate / cfg.fps) := by
      rw [List.range_succ, List.getLast?_concat] at hk
      exact (Option.some.inj hk).symm
    rw [hlast]
    exact ⟨Nat.div_mul_le_self _ _, Nat.lt_div_mul_add hframe⟩
  · intro events
    have h := accounted cfg events
    have hcfg : (counted cfg events).1.cfg = cfg :=
      run_invariant (P := fun x : Pipeline × Tally => x.1.cfg = cfg)
        (fun x e hx => (step_cfg x.1 e).trans hx) rfl events
    have hsum := h.sum
    have hbefore := h.before
    refine ⟨?_, ?_, ?_⟩
    · rw [h.frames, hcfg]
    · -- the account of the encoder that was started last
      omega
    · intro halive
      rw [h.clock halive, hcfg]
      exact ⟨rfl, h.alive halive⟩

/-- The encoder starts, and its pipe breaks at the first frame. -/
def broken : List Event :=
  [.apply calm 0 .start, .pushTick ⟨none, fun _ => .error "broken pipe"⟩ 0 120]

theorem frames_follow_samples_broken :
    (counted session broken).2.written +
        ((counted session broken).1.droppedFrames - (counted session broken).2.before) +
        (counted session broken).2.lost = (counted session broken).2.frames.length :=
  ((frames_follow_samples session (by decide) (by decide)).2 broken).2.1

/-- No push and an empty one come to the same samples, but the first frame goes out with the
second; and a frame at a broken pipe is neither written nor dropped. -/
theorem first_frame_with_first_push :
    (¬∀ pushes pushes' : List ℕ, pushes.sum = pushes'.sum →
      ((VideoCadence.new session.fps).feed pushes).2 =
        ((VideoCadence.new session.fps).feed pushes').2) ∧
    ¬∀ events : List Event, (counted session events).2.written +
      ((counted session events).1.droppedFrames - (counted session events).2.before) =
        (counted session events).2.frames.length := by
  constructor
  · intro h
    exact absurd (h [] [0] rfl) (by decide)
  · intro h
    exact absurd (h broken) (by decide)

end Pipeline
end JamStream.Stream
