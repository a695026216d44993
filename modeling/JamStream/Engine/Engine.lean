import JamStream.Protocol.Media

/-! The audio engine as the session uses it. The codecs, the jitter buffer, the
limiter and the sample arithmetic are parameters; how sources are summed through
faders is the code's own. -/

namespace JamStream.Engine
open Protocol

inductive Channels
  | mono
  | stereo
deriving DecidableEq

structure MediaPacket where
  seq : UInt32
  timestamp : UInt64
  payload : Bytes
  redundant : Option Bytes
deriving DecidableEq

inductive Pull
  | frame (payload : Bytes)
  | recovered (payload : Bytes)
  | missing
  | waiting
deriving DecidableEq

structure JitterStats where
  depthFrames : ℕ
  lost : UInt64
  recovered : UInt64
  pulled : UInt64
deriving DecidableEq

def JitterStats.zero : JitterStats := { depthFrames := 0, lost := 0, recovered := 0, pulled := 0 }

structure LossWindow where
  pulled : UInt64
  lost : UInt64
  recovered : UInt64
deriving DecidableEq

namespace LossWindow

def zero : LossWindow := { pulled := 0, lost := 0, recovered := 0 }

def between (prev now : JitterStats) : Option LossWindow :=
  if now.pulled < prev.pulled ∨ now.lost < prev.lost ∨ now.recovered < prev.recovered then none
  else some {
    pulled := now.pulled - prev.pulled
    lost := now.lost - prev.lost
    recovered := now.recovered - prev.recovered }

end LossWindow

structure Metronome where
  bpm : UInt16
  beatsPerBar : UInt8
deriving DecidableEq

structure Fader where
  gainDb : F32
  pan : F32
  muted : Bool
deriving DecidableEq

def Fader.unity : Fader := { gainDb := .zero, pan := .zero, muted := false }

structure Audio where
  Sample : Type
  zero : Sample
  add : Sample → Sample → Sample
  mul : Sample → Sample → Sample
  /-- The weights of the two sides under a gain and a pan. -/
  sides : F32 → F32 → Sample × Sample
  /-- The click over one tick from a sample clock on. -/
  click : Metronome → UInt64 → List Sample
  peak : List (Sample × Sample) → Sample
  rms : List (Sample × Sample) → Sample
  /-- A fresh reading against the fall of the last one. -/
  fall : Sample → Sample → Sample
  percent : UInt64 → UInt64 → F32
  toF32 : UInt64 → F32
  Jitter : Type
  jitterNew : Jitter
  jitterPush : Jitter → MediaPacket → Jitter
  jitterPull : Jitter → Jitter × Pull
  jitterStats : Jitter → JitterStats
  Decoder : Type
  decoderNew : Channels → FrameDuration → Option Decoder
  decode : Decoder → Option Bytes → Decoder × Option (List (Sample × Sample))
  Encoder : Type
  encoderNew : Channels → FrameDuration → UInt32 → Option Encoder
  encode : Encoder → List (Sample × Sample) → Encoder × Option Bytes
  Limiter : Type
  limiterNew : Limiter
  limiterProcess : Limiter → List (Sample × Sample) → Limiter × List (Sample × Sample)

variable (A : Audio)

/-- Stereo frames, left and right. -/
abbrev Stereo := List (A.Sample × A.Sample)

def silence (n : ℕ) : Stereo A := List.replicate n (A.zero, A.zero)

def LossWindow.wireLossPct (w : LossWindow) : F32 :=
  if w.pulled = 0 then .zero else A.percent (w.lost + w.recovered) w.pulled

def LossWindow.recoveredPct (w : LossWindow) : F32 :=
  if w.pulled = 0 then .zero else A.percent w.recovered w.pulled

variable {A}

def addSource (fader : Fader) (source out : Stereo A) : Stereo A :=
  let weights := A.sides fader.gainDb fader.pan
  out.zipWith (fun o s => (A.add o.1 (A.mul s.1 weights.1), A.add o.2 (A.mul s.2 weights.2))) source

def mixInto (sources : List (MemberId × Stereo A)) (faders : MemberId → Fader)
    (exclude : Option MemberId) (frames : ℕ) : Stereo A :=
  sources.foldl (fun out src =>
    if exclude = some src.1 ∨ (faders src.1).muted then out
    else addSource (faders src.1) src.2 out) (silence A frames)

/-- The click is mono and lands on both sides. -/
def addClick (click : List A.Sample) (pcm : Stereo A) : Stereo A :=
  pcm.zipWith (fun o c => (A.add o.1 c, A.add o.2 c)) click

end JamStream.Engine
