import JamStream.Protocol.Wire

/-! Media frames: a fixed header, then one codec payload, and with loss protection
on the previous frame's payload behind it. -/

namespace JamStream.Protocol
open Foundations Codec Wire

inductive FrameDuration
  | ms2_5
  | ms5
  | ms10
  | ms20
deriving DecidableEq

def FrameDuration.toBits : FrameDuration → UInt8
  | .ms2_5 => 0
  | .ms5 => 1
  | .ms10 => 2
  | .ms20 => 3

def FrameDuration.fromBits (bits : UInt8) : FrameDuration :=
  match bits &&& 3 with
  | 0 => .ms2_5
  | 1 => .ms5
  | 2 => .ms10
  | _ => .ms20

structure MediaFrame where
  seq : UInt32
  timestamp : UInt64
  duration : FrameDuration
  stereo : Bool
  payload : Bytes
  redundant : Option Bytes
deriving DecidableEq

namespace MediaFrame

def flagStereo : UInt8 := 4
def flagRedundant : UInt8 := 8
def headerBytes : ℕ := 14

def flags (f : MediaFrame) : UInt8 :=
  f.duration.toBits ||| (if f.stereo then flagStereo else 0) |||
    (if f.redundant.isSome then flagRedundant else 0)

def encode (f : MediaFrame) : Bytes :=
  channelMedia :: (le 4 f.seq.toNat ++ u64Le f.timestamp ++ f.flags ::
    match f.redundant with
    | none => f.payload
    | some red => le 2 f.payload.length ++ f.payload ++ red)

def withBody (buf payload : Bytes) (redundant : Option Bytes) : MediaFrame :=
  { seq := UInt32.ofNat (leNat 4 (buf.drop 1))
    timestamp := UInt64.ofNat (leNat 8 (buf.drop 5))
    duration := .fromBits (buf.getD 13 0)
    stereo := buf.getD 13 0 &&& flagStereo ≠ 0
    payload, redundant }

def decode (buf : Bytes) : Except Error MediaFrame :=
  if buf.length < headerBytes ∨ buf.head? ≠ some channelMedia then .error .malformed
  else
    let body := buf.drop headerBytes
    if buf.getD 13 0 &&& flagRedundant = 0 then .ok (withBody buf body none)
    else if body.length < 2 then .error .malformed
    else
      let plen := leNat 2 body
      let rest := body.drop 2
      if rest.length < plen then .error .malformed
      else .ok (withBody buf (rest.take plen) (some (rest.drop plen)))

end MediaFrame
end JamStream.Protocol
