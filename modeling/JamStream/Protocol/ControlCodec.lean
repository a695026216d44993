import JamStream.Foundations.Postcard
import JamStream.Protocol.ControlLink

/-! The control packet in the wire format its derived encoders use: fields in
order, enumerations by position. How long each part is, a codec that writes it
so, and that this codec reads back what it writes. -/

namespace JamStream.Protocol
open Foundations Codec

def textLen (s : String) : ℕ := varintLen s.utf8ByteSize + s.utf8ByteSize

def hashLen : Option AvatarHash → ℕ := fun hash => 1 + hash.elim 0 fun _ => 32

def MemberInfo.wireLen (m : MemberInfo) : ℕ :=
  varintLen m.id.toNat + (1 + (textLen m.name + (1 + (hashLen m.avatarHash + 1))))

def StreamOp.wireLen : StreamOp → ℕ
  | .addDestination id _ key => 1 + (varintLen id.toNat + (1 + textLen key))
  | .removeDestination id => 1 + varintLen id.toNat
  | .start => 1
  | .stop => 1

def DestinationState.wireLen : DestinationState → ℕ
  | .failed reason => 1 + textLen reason
  | _ => 1

def DestinationStatus.wireLen (d : DestinationStatus) : ℕ :=
  varintLen d.id.toNat + (1 + (d.state.wireLen + (varintLen d.bitrateKbps.toNat +
    (varintLen d.droppedFrames.toNat + varintLen d.repeatedFrames.toNat))))

def BroadcastReadiness.wireLen : BroadcastReadiness → ℕ
  | .ready => 1
  | .unavailable reason => 1 + textLen reason

def RecordingState.wireLen : RecordingState → ℕ
  | .failed reason => 1 + textLen reason
  | _ => 1

def ControlMsg.wireLen : ControlMsg → ℕ
  | .roster members => 1 + (varintLen members.length + (members.map MemberInfo.wireLen).sum)
  | .chat sender text => 1 + (varintLen sender.toNat + textLen text)
  | .mixerSet target _ _ _ => 1 + (varintLen target.toNat + (4 + (4 + 1)))
  | .metronomeSet bpm _ _ => 1 + (varintLen bpm.toNat + (1 + 1))
  | .clickEnable _ => 1 + 1
  | .ping nonce sentMs => 1 + (varintLen nonce.toNat + varintLen sentMs.toNat)
  | .pong nonce sentMs => 1 + (varintLen nonce.toNat + varintLen sentMs.toNat)
  | .revoke _ => 1 + 16
  | .bye reason => 1 + textLen reason
  | .stats _ depth _ => 1 + (4 + (varintLen depth.toNat + 4))
  | .broadcastMixSet target _ _ _ => 1 + (varintLen target.toNat + (4 + (4 + 1)))
  | .broadcastAudition _ => 1 + 1
  | .setAvatar _ len => 1 + (32 + varintLen len.toNat)
  | .avatarChunk _ index total data =>
    1 + (32 + (varintLen index.toNat + (varintLen total.toNat +
      (varintLen data.length + data.length))))
  | .avatarRequest _ => 1 + 32
  | .streamCtl op => 1 + op.wireLen
  | .streamStatus destinations =>
    1 + (varintLen destinations.length + (destinations.map DestinationStatus.wireLen).sum)
  | .recordCtl _ => 1 + 1
  | .recordStatus state _ => 1 + (state.wireLen + 1)
  | .setName name => 1 + textLen name
  | .broadcastReadiness state => 1 + state.wireLen
  | .serverLog line => 1 + textLen line
  | .hearSelf _ => 1 + 1

def CtlPacket.wireLen (pkt : CtlPacket) : ℕ :=
  varintLen pkt.ack.toNat + (varintLen pkt.ackBits.toNat +
    (1 + pkt.frame.elim 0 fun f => varintLen f.1.toNat + f.2.wireLen))

namespace Postcard

def f32 : Codec F32 := bits32.via F32.bits F32.mk

def role : Codec Role where
  ser
    | .musician => tagged 0 unit ()
    | .listener => tagged 1 unit ()
  de := readTagged fun
    | 0 => unit.read fun _ => .musician
    | 1 => unit.read fun _ => .listener
    | _ => fun _ => none

def streamPlatform : Codec StreamPlatform where
  ser
    | .twitch => tagged 0 unit ()
    | .youTube => tagged 1 unit ()
  de := readTagged fun
    | 0 => unit.read fun _ => .twitch
    | 1 => unit.read fun _ => .youTube
    | _ => fun _ => none

def recordOp : Codec RecordOp where
  ser
    | .start => tagged 0 unit ()
    | .stop => tagged 1 unit ()
  de := readTagged fun
    | 0 => unit.read fun _ => .start
    | 1 => unit.read fun _ => .stop
    | _ => fun _ => none

def streamOp : Codec StreamOp where
  ser
    | .addDestination id platform key =>
      tagged 0 (u16.pair (streamPlatform.pair string)) (id, platform, key)
    | .removeDestination id => tagged 1 u16 id
    | .start => tagged 2 unit ()
    | .stop => tagged 3 unit ()
  de := readTagged fun
    | 0 => (u16.pair (streamPlatform.pair string)).read fun p => .addDestination p.1 p.2.1 p.2.2
    | 1 => u16.read .removeDestination
    | 2 => unit.read fun _ => .start
    | 3 => unit.read fun _ => .stop
    | _ => fun _ => none

def destinationState : Codec DestinationState where
  ser
    | .idle => tagged 0 unit ()
    | .connecting => tagged 1 unit ()
    | .live => tagged 2 unit ()
    | .failed reason => tagged 3 string reason
  de := readTagged fun
    | 0 => unit.read fun _ => .idle
    | 1 => unit.read fun _ => .connecting
    | 2 => unit.read fun _ => .live
    | 3 => string.read .failed
    | _ => fun _ => none

def broadcastReadiness : Codec BroadcastReadiness where
  ser
    | .ready => tagged 0 unit ()
    | .unavailable reason => tagged 1 string reason
  de := readTagged fun
    | 0 => unit.read fun _ => .ready
    | 1 => string.read .unavailable
    | _ => fun _ => none

def recordingState : Codec RecordingState where
  ser
    | .idle => tagged 0 unit ()
    | .recording => tagged 1 unit ()
    | .uploading => tagged 2 unit ()
    | .failed reason => tagged 3 string reason
  de := readTagged fun
    | 0 => unit.read fun _ => .idle
    | 1 => unit.read fun _ => .recording
    | 2 => unit.read fun _ => .uploading
    | 3 => string.read .failed
    | _ => fun _ => none

def memberInfo : Codec MemberInfo :=
  (u16.pair (role.pair (string.pair (bool.pair ((array 32).option.pair bool))))).via
    (fun m => (m.id, m.role, m.name, m.connected, m.avatarHash, m.quiet))
    fun p => ⟨p.1, p.2.1, p.2.2.1, p.2.2.2.1, p.2.2.2.2.1, p.2.2.2.2.2⟩

def destinationStatus : Codec DestinationStatus :=
  (u16.pair (streamPlatform.pair (destinationState.pair (u32.pair (u64.pair u64))))).via
    (fun d => (d.id, d.platform, d.state, d.bitrateKbps, d.droppedFrames, d.repeatedFrames))
    fun p => ⟨p.1, p.2.1, p.2.2.1, p.2.2.2.1, p.2.2.2.2.1, p.2.2.2.2.2⟩

def gain : Codec (MemberId × F32 × F32 × Bool) := u16.pair (f32.pair (f32.pair bool))
def probe : Codec (UInt32 × UInt64) := u32.pair u64

def controlMsg : Codec ControlMsg where
  ser
    | .roster members => tagged 0 memberInfo.list members
    | .chat sender text => tagged 1 (u16.pair string) (sender, text)
    | .mixerSet target gainDb pan muted => tagged 2 gain (target, gainDb, pan, muted)
    | .metronomeSet bpm beatsPerBar enabled =>
      tagged 3 (u16.pair (u8.pair bool)) (bpm, beatsPerBar, enabled)
    | .clickEnable enabled => tagged 4 bool enabled
    | .ping nonce sentMs => tagged 5 probe (nonce, sentMs)
    | .pong nonce sentMs => tagged 6 probe (nonce, sentMs)
    | .revoke jti => tagged 7 (array 16) jti
    | .bye reason => tagged 8 string reason
    | .stats loss depth recovered => tagged 9 (f32.pair (u16.pair f32)) (loss, depth, recovered)
    | .broadcastMixSet target gainDb pan muted => tagged 10 gain (target, gainDb, pan, muted)
    | .broadcastAudition enabled => tagged 11 bool enabled
    | .setAvatar hash len => tagged 12 ((array 32).pair u32) (hash, len)
    | .avatarChunk hash index total data =>
      tagged 13 ((array 32).pair (u16.pair (u16.pair bytes))) (hash, index, total, data)
    | .avatarRequest hash => tagged 14 (array 32) hash
    | .streamCtl op => tagged 15 streamOp op
    | .streamStatus destinations => tagged 16 destinationStatus.list destinations
    | .recordCtl op => tagged 17 recordOp op
    | .recordStatus state stems => tagged 18 (recordingState.pair bool) (state, stems)
    | .setName name => tagged 19 string name
    | .broadcastReadiness state => tagged 20 broadcastReadiness state
    | .serverLog line => tagged 21 string line
    | .hearSelf enabled => tagged 22 bool enabled
  de := readTagged fun
    | 0 => memberInfo.list.read .roster
    | 1 => (u16.pair string).read fun p => .chat p.1 p.2
    | 2 => gain.read fun p => .mixerSet p.1 p.2.1 p.2.2.1 p.2.2.2
    | 3 => (u16.pair (u8.pair bool)).read fun p => .metronomeSet p.1 p.2.1 p.2.2
    | 4 => bool.read .clickEnable
    | 5 => probe.read fun p => .ping p.1 p.2
    | 6 => probe.read fun p => .pong p.1 p.2
    | 7 => (array 16).read .revoke
    | 8 => string.read .bye
    | 9 => (f32.pair (u16.pair f32)).read fun p => .stats p.1 p.2.1 p.2.2
    | 10 => gain.read fun p => .broadcastMixSet p.1 p.2.1 p.2.2.1 p.2.2.2
    | 11 => bool.read .broadcastAudition
    | 12 => ((array 32).pair u32).read fun p => .setAvatar p.1 p.2
    | 13 => ((array 32).pair (u16.pair (u16.pair bytes))).read fun p =>
      .avatarChunk p.1 p.2.1 p.2.2.1 p.2.2.2
    | 14 => (array 32).read .avatarRequest
    | 15 => streamOp.read .streamCtl
    | 16 => destinationStatus.list.read .streamStatus
    | 17 => recordOp.read .recordCtl
    | 18 => (recordingState.pair bool).read fun p => .recordStatus p.1 p.2
    | 19 => string.read .setName
    | 20 => broadcastReadiness.read .broadcastReadiness
    | 21 => string.read .serverLog
    | 22 => bool.read .hearSelf
    | _ => fun _ => none

def ctlPacket : Codec CtlPacket :=
  (u64.pair (u32.pair (u64.pair controlMsg).option)).via
    (fun pkt => (pkt.ack, pkt.ackBits, pkt.frame)) fun p => ⟨p.1, p.2.1, p.2.2⟩

theorem f32_lawful : f32.Lawful := bits32_lawful.via fun _ => rfl

theorem role_lawful : role.Lawful := by
  intro r rest
  cases r with
  | musician => exact unit_lawful.case rfl rfl rfl
  | listener => exact unit_lawful.case rfl rfl rfl

theorem streamPlatform_lawful : streamPlatform.Lawful := by
  intro p rest
  cases p with
  | twitch => exact unit_lawful.case rfl rfl rfl
  | youTube => exact unit_lawful.case rfl rfl rfl

theorem recordOp_lawful : recordOp.Lawful := by
  intro op rest
  cases op with
  | start => exact unit_lawful.case rfl rfl rfl
  | stop => exact unit_lawful.case rfl rfl rfl

theorem streamOp_lawful : streamOp.Lawful := by
  intro op rest
  cases op with
  | addDestination id platform key =>
    exact (u16_lawful.pair (streamPlatform_lawful.pair string_lawful)).case rfl rfl rfl
  | removeDestination id => exact u16_lawful.case rfl rfl rfl
  | start => exact unit_lawful.case rfl rfl rfl
  | stop => exact unit_lawful.case rfl rfl rfl

theorem destinationState_lawful : destinationState.Lawful := by
  intro s rest
  cases s with
  | idle => exact unit_lawful.case rfl rfl rfl
  | connecting => exact unit_lawful.case rfl rfl rfl
  | live => exact unit_lawful.case rfl rfl rfl
  | failed reason => exact string_lawful.case rfl rfl rfl

theorem broadcastReadiness_lawful : broadcastReadiness.Lawful := by
  intro s rest
  cases s with
  | ready => exact unit_lawful.case rfl rfl rfl
  | unavailable reason => exact string_lawful.case rfl rfl rfl

theorem recordingState_lawful : recordingState.Lawful := by
  intro s rest
  cases s with
  | idle => exact unit_lawful.case rfl rfl rfl
  | recording => exact unit_lawful.case rfl rfl rfl
  | uploading => exact unit_lawful.case rfl rfl rfl
  | failed reason => exact string_lawful.case rfl rfl rfl

theorem memberInfo_lawful : memberInfo.Lawful :=
  (u16_lawful.pair (role_lawful.pair (string_lawful.pair (bool_lawful.pair
    ((array_lawful 32).option.pair bool_lawful))))).via fun _ => rfl

theorem destinationStatus_lawful : destinationStatus.Lawful :=
  (u16_lawful.pair (streamPlatform_lawful.pair (destinationState_lawful.pair
    (u32_lawful.pair (u64_lawful.pair u64_lawful))))).via fun _ => rfl

theorem gain_lawful : gain.Lawful := u16_lawful.pair (f32_lawful.pair (f32_lawful.pair bool_lawful))
theorem probe_lawful : probe.Lawful := u32_lawful.pair u64_lawful

theorem controlMsg_lawful : controlMsg.Lawful := by
  intro msg rest
  cases msg with
  | roster members => exact memberInfo_lawful.list.case rfl rfl rfl
  | chat sender text => exact (u16_lawful.pair string_lawful).case rfl rfl rfl
  | mixerSet target gainDb pan muted => exact gain_lawful.case rfl rfl rfl
  | metronomeSet bpm beatsPerBar enabled =>
    exact (u16_lawful.pair (u8_lawful.pair bool_lawful)).case rfl rfl rfl
  | clickEnable enabled => exact bool_lawful.case rfl rfl rfl
  | ping nonce sentMs => exact probe_lawful.case rfl rfl rfl
  | pong nonce sentMs => exact probe_lawful.case rfl rfl rfl
  | revoke jti => exact (array_lawful 16).case rfl rfl rfl
  | bye reason => exact string_lawful.case rfl rfl rfl
  | stats loss depth recovered => exact (f32_lawful.pair (u16_lawful.pair f32_lawful)).case rfl rfl rfl
  | broadcastMixSet target gainDb pan muted => exact gain_lawful.case rfl rfl rfl
  | broadcastAudition enabled => exact bool_lawful.case rfl rfl rfl
  | setAvatar hash len => exact ((array_lawful 32).pair u32_lawful).case rfl rfl rfl
  | avatarChunk hash index total data =>
    exact ((array_lawful 32).pair (u16_lawful.pair (u16_lawful.pair bytes_lawful))).case rfl rfl rfl
  | avatarRequest hash => exact (array_lawful 32).case rfl rfl rfl
  | streamCtl op => exact streamOp_lawful.case rfl rfl rfl
  | streamStatus destinations => exact destinationStatus_lawful.list.case rfl rfl rfl
  | recordCtl op => exact recordOp_lawful.case rfl rfl rfl
  | recordStatus state stems => exact (recordingState_lawful.pair bool_lawful).case rfl rfl rfl
  | setName name => exact string_lawful.case rfl rfl rfl
  | broadcastReadiness state => exact broadcastReadiness_lawful.case rfl rfl rfl
  | serverLog line => exact string_lawful.case rfl rfl rfl
  | hearSelf enabled => exact bool_lawful.case rfl rfl rfl

theorem ctlPacket_lawful : ctlPacket.Lawful :=
  (u64_lawful.pair (u32_lawful.pair (u64_lawful.pair controlMsg_lawful).option)).via fun _ => rfl

theorem f32_sized : f32.Sized fun _ => 4 := bits32_sized.via _ _

theorem role_sized : role.Sized fun _ => 1 := by
  intro r
  cases r <;> exact unit_sized.case _ ()

theorem streamPlatform_sized : streamPlatform.Sized fun _ => 1 := by
  intro p
  cases p <;> exact unit_sized.case _ ()

theorem recordOp_sized : recordOp.Sized fun _ => 1 := by
  intro op
  cases op <;> exact unit_sized.case _ ()

theorem streamOp_sized : streamOp.Sized StreamOp.wireLen := by
  intro op
  cases op with
  | addDestination id platform key =>
    exact (u16_sized.pair (streamPlatform_sized.pair string_sized)).case _ (id, platform, key)
  | removeDestination id => exact u16_sized.case _ id
  | start => exact unit_sized.case _ ()
  | stop => exact unit_sized.case _ ()

theorem destinationState_sized : destinationState.Sized DestinationState.wireLen := by
  intro s
  cases s with
  | failed reason => exact string_sized.case _ reason
  | _ => exact unit_sized.case _ ()

theorem broadcastReadiness_sized : broadcastReadiness.Sized BroadcastReadiness.wireLen := by
  intro s
  cases s with
  | ready => exact unit_sized.case _ ()
  | unavailable reason => exact string_sized.case _ reason

theorem recordingState_sized : recordingState.Sized RecordingState.wireLen := by
  intro s
  cases s with
  | failed reason => exact string_sized.case _ reason
  | _ => exact unit_sized.case _ ()

theorem memberInfo_sized : memberInfo.Sized MemberInfo.wireLen :=
  (u16_sized.pair (role_sized.pair (string_sized.pair (bool_sized.pair
    ((array_sized 32).option.pair bool_sized))))).via _ _

theorem destinationStatus_sized : destinationStatus.Sized DestinationStatus.wireLen :=
  (u16_sized.pair (streamPlatform_sized.pair (destinationState_sized.pair
    (u32_sized.pair (u64_sized.pair u64_sized))))).via _ _

theorem gain_sized : gain.Sized fun p => varintLen p.1.toNat + (4 + (4 + 1)) :=
  u16_sized.pair (f32_sized.pair (f32_sized.pair bool_sized))

theorem probe_sized : probe.Sized fun p => varintLen p.1.toNat + varintLen p.2.toNat :=
  u32_sized.pair u64_sized

theorem controlMsg_sized : controlMsg.Sized ControlMsg.wireLen := by
  intro msg
  cases msg with
  | roster members => exact memberInfo_sized.list.case _ members
  | chat sender text => exact (u16_sized.pair string_sized).case _ (sender, text)
  | mixerSet target gainDb pan muted => exact gain_sized.case _ (target, gainDb, pan, muted)
  | metronomeSet bpm beatsPerBar enabled =>
    exact (u16_sized.pair (u8_sized.pair bool_sized)).case _ (bpm, beatsPerBar, enabled)
  | clickEnable enabled => exact bool_sized.case _ enabled
  | ping nonce sentMs => exact probe_sized.case _ (nonce, sentMs)
  | pong nonce sentMs => exact probe_sized.case _ (nonce, sentMs)
  | revoke jti => exact (array_sized 16).case _ jti
  | bye reason => exact string_sized.case _ reason
  | stats loss depth recovered =>
    exact (f32_sized.pair (u16_sized.pair f32_sized)).case _ (loss, depth, recovered)
  | broadcastMixSet target gainDb pan muted =>
    exact gain_sized.case _ (target, gainDb, pan, muted)
  | broadcastAudition enabled => exact bool_sized.case _ enabled
  | setAvatar hash len => exact ((array_sized 32).pair u32_sized).case _ (hash, len)
  | avatarChunk hash index total data =>
    exact ((array_sized 32).pair (u16_sized.pair (u16_sized.pair bytes_sized))).case _
      (hash, index, total, data)
  | avatarRequest hash => exact (array_sized 32).case _ hash
  | streamCtl op => exact streamOp_sized.case _ op
  | streamStatus destinations => exact destinationStatus_sized.list.case _ destinations
  | recordCtl op => exact recordOp_sized.case _ op
  | recordStatus state stems => exact (recordingState_sized.pair bool_sized).case _ (state, stems)
  | setName name => exact string_sized.case _ name
  | broadcastReadiness state => exact broadcastReadiness_sized.case _ state
  | serverLog line => exact string_sized.case _ line
  | hearSelf enabled => exact bool_sized.case _ enabled

theorem ctlPacket_sized : ctlPacket.Sized CtlPacket.wireLen := by
  have h : (u64.pair (u32.pair (u64.pair controlMsg).option)).Sized _ :=
    u64_sized.pair (u32_sized.pair (u64_sized.pair controlMsg_sized).option)
  exact h.via _ _

end Postcard
end JamStream.Protocol
