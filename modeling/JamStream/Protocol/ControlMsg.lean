import Mathlib

/-! The identifiers and the messages of the control plane, with the length rules
both ends of a link apply. Texts are measured in UTF-8 bytes, floats are carried
as their bits, and fixed byte arrays as bit vectors whose first byte is the most
significant one, which keeps the order the source compares them in. -/

namespace JamStream.Protocol

abbrev Bytes := List UInt8
abbrev MemberId := UInt16
abbrev DestinationId := UInt16
abbrev SessionId := BitVec 128
abbrev TokenId := BitVec 128
abbrev AvatarHash := BitVec 256

/-- The host holds a musician token whose member id is always 0. -/
def hostMemberId : MemberId := 0

inductive Role
  | musician
  | listener
deriving DecidableEq

structure F32 where
  bits : UInt32
deriving DecidableEq

namespace F32

def zero : F32 := ⟨0⟩

def isFinite (x : F32) : Bool := (x.bits >>> 23) &&& 0xFF != 0xFF

/-- Sign and magnitude as an integer: the order of the finite singles. -/
def key (x : F32) : Int :=
  if x.bits < 0x80000000 then x.bits.toNat else -((x.bits.toNat : Int) - 0x80000000)

def clamp (x lo hi : F32) : F32 :=
  if x.key < lo.key then lo else if hi.key < x.key then hi else x

end F32

def maxChatLen : ℕ := 1000
def maxNameLen : ℕ := 64
def maxStreamKeyLen : ℕ := 256
def maxStreamReasonLen : ℕ := 200
def maxDestinations : ℕ := 8
def maxRecordReasonLen : ℕ := 200
def maxServerLogLine : ℕ := 320
def maxAvatarBytes : ℕ := 256 * 1024
def avatarChunkBytes : ℕ := 1024
def maxDatagramBytes : ℕ := 2 * 1024

inductive StreamPlatform
  | twitch
  | youTube
deriving DecidableEq

inductive StreamOp
  | addDestination (id : DestinationId) (platform : StreamPlatform) (key : String)
  | removeDestination (id : DestinationId)
  | start
  | stop
deriving DecidableEq

inductive DestinationState
  | idle
  | connecting
  | live
  | failed (reason : String)
deriving DecidableEq

inductive BroadcastReadiness
  | ready
  | unavailable (reason : String)
deriving DecidableEq

structure DestinationStatus where
  id : DestinationId
  platform : StreamPlatform
  state : DestinationState
  bitrateKbps : UInt32
  droppedFrames : UInt64
  repeatedFrames : UInt64
deriving DecidableEq

inductive RecordOp
  | start
  | stop
deriving DecidableEq

inductive RecordingState
  | idle
  | recording
  | uploading
  | failed (reason : String)
deriving DecidableEq

structure MemberInfo where
  id : MemberId
  role : Role
  name : String
  connected : Bool
  avatarHash : Option AvatarHash
  quiet : Bool
deriving DecidableEq

inductive ControlMsg
  | roster (members : List MemberInfo)
  | chat (sender : MemberId) (text : String)
  | mixerSet (target : MemberId) (gainDb pan : F32) (muted : Bool)
  | metronomeSet (bpm : UInt16) (beatsPerBar : UInt8) (enabled : Bool)
  | clickEnable (enabled : Bool)
  | ping (nonce : UInt32) (sentMs : UInt64)
  | pong (nonce : UInt32) (sentMs : UInt64)
  | revoke (jti : TokenId)
  | bye (reason : String)
  | stats (uplinkLossPct : F32) (uplinkJitterDepth : UInt16) (uplinkRecoveredPct : F32)
  | broadcastMixSet (target : MemberId) (gainDb pan : F32) (muted : Bool)
  | broadcastAudition (enabled : Bool)
  | setAvatar (hash : AvatarHash) (len : UInt32)
  | avatarChunk (hash : AvatarHash) (index total : UInt16) (data : Bytes)
  | avatarRequest (hash : AvatarHash)
  | streamCtl (op : StreamOp)
  | streamStatus (destinations : List DestinationStatus)
  | recordCtl (op : RecordOp)
  | recordStatus (state : RecordingState) (stems : Bool)
  | setName (name : String)
  | broadcastReadiness (state : BroadcastReadiness)
  | serverLog (line : String)
  | hearSelf (enabled : Bool)
deriving DecidableEq

inductive Error
  | malformed
  | unknownPacketType (tag : UInt8)
  | versionMismatch (ours theirs : UInt16)
  | handshake
  | token (detail : String)
  | replay
  | decrypt
  | encode
  | linkFull
deriving DecidableEq

/-- A length rule: a message that breaks it is malformed. -/
def refuseIf (bad : Prop) [Decidable bad] : Except Error Unit :=
  if bad then .error .malformed else .ok ()

def DestinationState.badReason : DestinationState → Bool
  | .failed reason => maxStreamReasonLen < reason.utf8ByteSize
  | _ => false

def checkLengths : ControlMsg → Except Error Unit
  | .chat _ text => refuseIf (maxChatLen < text.utf8ByteSize)
  | .bye reason => refuseIf (maxChatLen < reason.utf8ByteSize)
  | .avatarChunk _ _ _ data => refuseIf (avatarChunkBytes < data.length)
  | .streamCtl (.addDestination _ _ key) =>
    refuseIf (key.isEmpty ∨ maxStreamKeyLen < key.utf8ByteSize)
  | .streamStatus destinations =>
    refuseIf (maxDestinations < destinations.length ∨ ∃ d ∈ destinations, d.state.badReason)
  | .recordStatus (.failed reason) _ => refuseIf (maxRecordReasonLen < reason.utf8ByteSize)
  | .broadcastReadiness (.unavailable reason) =>
    refuseIf (maxStreamReasonLen < reason.utf8ByteSize)
  | .serverLog line => refuseIf (maxServerLogLine < line.utf8ByteSize)
  | .roster members => refuseIf (∃ m ∈ members, maxNameLen < m.name.utf8ByteSize)
  | .setName name => refuseIf (maxNameLen < name.utf8ByteSize)
  | _ => .ok ()

theorem refuseIf_ok {bad : Prop} [Decidable bad] : refuseIf bad = .ok () ↔ ¬bad := by
  unfold refuseIf
  split_ifs with h <;> simp [h]

end JamStream.Protocol
