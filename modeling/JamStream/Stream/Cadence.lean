import Mathlib

/-! The video clock, counted in samples of the audio it follows. -/

namespace JamStream.Stream

def sampleRate : ℕ := 48000

structure VideoCadence where
  samplesPerFrame : ℕ
  samples : ℕ
  frames : ℕ
deriving DecidableEq

structure FrameRun where
  next : ℕ
  stop : ℕ
deriving DecidableEq

def FrameRun.toList (r : FrameRun) : List ℕ := List.range' r.next (r.stop - r.next)

namespace VideoCadence

def new (fps : ℕ) : VideoCadence :=
  { samplesPerFrame := sampleRate / fps, samples := 0, frames := 0 }

/-- Frame `k` is due once `k` frames' worth of samples went by. -/
def advance (v : VideoCadence) (samples : ℕ) : VideoCadence × FrameRun :=
  let frames := max v.frames ((v.samples + samples) / v.samplesPerFrame + 1)
  ({ v with samples := v.samples + samples, frames }, { next := v.frames, stop := frames })

def ptsSamples (v : VideoCadence) (index : ℕ) : ℕ := index * v.samplesPerFrame

/-- Push after push, and the frames that came due. -/
def feed (v : VideoCadence) (pushes : List ℕ) : VideoCadence × List ℕ :=
  pushes.foldl (fun r n => ((r.1.advance n).1, r.2 ++ (r.1.advance n).2.toList)) (v, [])

theorem feed_concat (v : VideoCadence) (pushes : List ℕ) (n : ℕ) :
    v.feed (pushes ++ [n]) =
      (((v.feed pushes).1.advance n).1, (v.feed pushes).2 ++ ((v.feed pushes).1.advance n).2.toList) := by
  unfold feed
  rw [List.foldl_append]
  rfl

theorem feed_new {fps : ℕ} {pushes : List ℕ} (h : pushes ≠ []) :
    (new fps).feed pushes =
      ({ samplesPerFrame := sampleRate / fps, samples := pushes.sum
         frames := pushes.sum / (sampleRate / fps) + 1 },
        List.range (pushes.sum / (sampleRate / fps) + 1)) := by
  induction pushes using List.reverseRecOn with
  | nil => exact absurd rfl h
  | append_singleton pushes n ih =>
    have hsum : (pushes ++ [n]).sum = pushes.sum + n := by
      rw [List.sum_append, List.sum_singleton]
    rw [feed_concat, hsum]
    by_cases hpushes : pushes = []
    · subst hpushes
      have hfirst : max 0 ((0 + n) / (sampleRate / fps) + 1) = (0 + n) / (sampleRate / fps) + 1 :=
        Nat.max_eq_right (Nat.zero_le _)
      simp only [feed, List.foldl_nil, new, advance, hfirst, List.sum_nil, FrameRun.toList,
        Nat.sub_zero, List.nil_append, List.range_eq_range']
    · have hle : pushes.sum / (sampleRate / fps) + 1 ≤
          (pushes.sum + n) / (sampleRate / fps) + 1 :=
        Nat.succ_le_succ (Nat.div_le_div_right (Nat.le_add_right _ n))
      have hrange : List.range' 0 (pushes.sum / (sampleRate / fps) + 1) ++
          List.range' (pushes.sum / (sampleRate / fps) + 1)
            ((pushes.sum + n) / (sampleRate / fps) + 1 - (pushes.sum / (sampleRate / fps) + 1)) =
          List.range' 0 ((pushes.sum + n) / (sampleRate / fps) + 1) := by
        have happend := List.range'_append_1 (s := 0) (m := pushes.sum / (sampleRate / fps) + 1)
          (n := (pushes.sum + n) / (sampleRate / fps) + 1 - (pushes.sum / (sampleRate / fps) + 1))
        rwa [Nat.zero_add, Nat.add_sub_cancel' hle] at happend
      rw [ih hpushes]
      simp only [advance, Nat.max_eq_right hle, FrameRun.toList, List.range_eq_range', hrange]

end VideoCadence
end JamStream.Stream
