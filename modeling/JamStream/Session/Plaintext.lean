import JamStream.Protocol.ControlCodec
import JamStream.Session.ServerCore

/-! A core to run by hand: packets travel as they are, sound is silence, and a token
is genuine when its id is the number of its member. The control packets are the real
ones. -/

namespace JamStream.Session
open Protocol Engine Foundations

namespace Plaintext
open Postcard Codec

def token : Codec Token :=
  (u16.pair (role.pair (string.option.pair (u64.pair (array 16))))).via
    (fun t => (t.memberId, t.role, t.nameHint, t.expiresUnix, t.jti))
    fun p => ⟨p.1, p.2.1, p.2.2.1, p.2.2.2.1, p.2.2.2.2⟩

theorem token_lawful : token.Lawful :=
  (u16_lawful.pair (role_lawful.pair (string_lawful.option.pair
    (u64_lawful.pair (array_lawful 16))))).via fun _ => rfl

def genuine (t : Token) : Bool := t.jti.toNat == t.memberId.toNat

def verify (text : Bytes) : Bool :=
  (token.de (text.drop (Transport.ascii "jamstream-token-v1").length)).any fun r => genuine r.1

end Plaintext

open Plaintext Codec in
def plaintext : Externals where
  blake2s data := BitVec.ofNat 256 (Wire.leNat data.length data)
  blake2sMac n _ data := data.takeD n 0
  diffieHellman _ pub := some pub
  xchachaSeal _ _ plain _ := plain
  verify _ text _ := Plaintext.verify text
  HandshakeState := Unit
  TransportState := Unit
  readMessage _ _ noise := some ((), noise)
  remoteStatic _ := some (List.replicate 32 0)
  writeMessage _ payload _ := some ((), payload)
  intoTransport _ := some ()
  writeTransport _ _ plain := some plain
  readTransport _ _ ciphertext := some ciphertext
  ctlPacket := Postcard.ctlPacket
  handshakePayload := token.via HandshakePayload.token fun token => { token, signature := [] }
  welcome := (Codec.u16.pair Codec.u64).via (fun w => (w.memberId, w.sampleClock))
    fun p => ⟨p.1, p.2⟩
  claims := token.via (fun claim => claim.2.2) fun token => (0, [], token)
  Sample := Unit
  zero := ()
  add _ _ := ()
  mul _ _ := ()
  sides _ _ := ((), ())
  click _ _ := []
  peak _ := ()
  rms _ := ()
  fall _ _ := ()
  percent _ _ := .zero
  toF32 _ := .zero
  Jitter := Unit
  jitterNew := ()
  jitterPush _ _ := ()
  jitterPull _ := ((), .waiting)
  jitterStats _ := .zero
  Decoder := Unit
  decoderNew _ _ := some ()
  decode _ _ := ((), none)
  Encoder := Unit
  encoderNew _ _ _ := some ()
  encode _ _ := ((), none)
  Limiter := Unit
  limiterNew := ()
  limiterProcess _ pcm := ((), pcm)

namespace Plaintext

def config : ServerConfig := .new 0 [] [] []

def tokenOf (id : MemberId) (role : Role) : Token :=
  { memberId := id, role, nameHint := none, expiresUnix := 1, jti := BitVec.ofNat 128 id.toNat }

def addrOf (id : MemberId) : SocketAddr := .v4 (BitVec.ofNat 32 id.toNat) 5000

def initOf (id : MemberId) (role : Role) : Bytes :=
  Wire.buildHandshakeInit protocolVersion (token.ser (tokenOf id role))

/-- A control packet on its way from a member. -/
def packetOf (id : MemberId) (counter : UInt64) (pkt : CtlPacket) : Bytes :=
  Wire.transportHeader id counter ++ encode Postcard.ctlPacket pkt

theorem verifyToken_owner {cfg : ServerConfig} {t : Token} {signature : Bytes} {nowUnix : UInt64}
    (h : verifyToken plaintext.toCrypto plaintext.toFormats cfg.issuerPk cfg.sessionId
      cfg.serverPublic t signature nowUnix = .ok ()) : UInt16.ofNat t.jti.toNat = t.memberId := by
  have hread : Plaintext.verify (claims plaintext.toFormats cfg.sessionId cfg.serverPublic t) =
      genuine t := by
    show ((token.de ((Transport.ascii "jamstream-token-v1" ++ token.ser t).drop _)).any
      fun r => genuine r.1) = genuine t
    rw [List.drop_left, token_lawful.de_ser]
    rfl
  unfold verifyToken at h
  change (if !Plaintext.verify _ then _ else _) = _ at h
  rw [hread] at h
  cases hgenuine : genuine t with
  | false => simp [hgenuine] at h
  | true =>
    rw [beq_iff_eq.mp hgenuine]
    exact UInt16.ofNat_toNat

end Plaintext
end JamStream.Session
