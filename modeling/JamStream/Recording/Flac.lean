import JamStream.Engine.Engine

/-! The streaming encoder of the recorder: samples wait until they fill a block, and
each block goes through the FLAC library under its number. -/

namespace JamStream.Recording
open Protocol Engine

def channels : ℕ := 2
def tickStereoSamples : ℕ := 120 * channels
def blockSamples : ℕ := 4096
def blockInterleaved : ℕ := blockSamples * channels

/-- What recording takes from libraries: sound, FLAC, and the letters and digits of
every script. -/
structure Encoding extends Audio where
  toI16 : Sample → ℤ
  /-- The stream header's body. -/
  streamInfo : Except String Bytes
  /-- One frame, by its number and its interleaved samples. -/
  encodeBlock : ℕ → List ℤ → Except String Bytes
  isAlphanumeric : Char → Bool

structure FlacEncoder where
  pending : List ℤ
  frames : ℕ

variable (X : Encoding)

namespace FlacEncoder

def new : FlacEncoder := { pending := [], frames := 0 }

/-- As if so many blocks and samples of silence had gone in. -/
def resumeSilent (frames pending : ℕ) : FlacEncoder :=
  { pending := List.replicate pending 0, frames }

/-- The magic word, and one last metadata block of 34 bytes. -/
def header : Except String Bytes :=
  X.streamInfo.map fun info => [0x66, 0x4C, 0x61, 0x43, 0x80, 0, 0, 34] ++ info

def encodeBlocks : ℕ → FlacEncoder → FlacEncoder × Except String Bytes
  | 0, enc => (enc, .ok [])
  | n + 1, enc =>
    if blockInterleaved ≤ enc.pending.length then
      let rest := enc.pending.drop blockInterleaved
      match X.encodeBlock enc.frames (enc.pending.take blockInterleaved) with
      | .error e => ({ enc with pending := rest }, .error e)
      | .ok frame =>
        let r := encodeBlocks n { pending := rest, frames := enc.frames + 1 }
        (r.1, r.2.map fun frames => frame ++ frames)
    else (enc, .ok [])

def push (enc : FlacEncoder) (pcm : Stereo X.toAudio) : FlacEncoder × Except String Bytes :=
  let pending := enc.pending ++ pcm.flatMap fun s => [X.toI16 s.1, X.toI16 s.2]
  encodeBlocks X pending.length { enc with pending }

def finish (enc : FlacEncoder) : Except String Bytes :=
  if enc.pending.isEmpty then .ok [] else X.encodeBlock enc.frames enc.pending

end FlacEncoder
end JamStream.Recording
