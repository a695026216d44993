import JamStream.Protocol.Wire

/-! The handshake and the encrypted transport, over the cryptographic libraries as
parameters: what the code asks of each is a function, and nothing is assumed about
it here. The one source of randomness, the responder's ephemeral key, is an input. -/

namespace JamStream.Protocol
open Foundations

abbrev Digest := BitVec 256

structure Token where
  memberId : MemberId
  role : Role
  nameHint : Option String
  expiresUnix : UInt64
  jti : TokenId
deriving DecidableEq

structure HandshakePayload where
  token : Token
  signature : Bytes
deriving DecidableEq

structure Welcome where
  memberId : MemberId
  sampleClock : UInt64
deriving DecidableEq

/-- Blake2s, X25519, Ed25519, XChaCha20-Poly1305 and the Noise IK responder. -/
structure Crypto where
  blake2s : Bytes → Digest
  blake2sMac : ℕ → Digest → Bytes → Bytes
  /-- No secret comes of an exchange the other side did not contribute to. -/
  diffieHellman : Bytes → Bytes → Option Bytes
  xchachaSeal : Digest → Bytes → Bytes → Bytes → Bytes
  verify : Bytes → Bytes → Bytes → Bool
  HandshakeState : Type
  TransportState : Type
  /-- Private key, prologue and first message to the state after it and its payload. -/
  readMessage : Bytes → Bytes → Bytes → Option (HandshakeState × Bytes)
  remoteStatic : HandshakeState → Option Bytes
  /-- Payload and ephemeral key to the state after the second message and that message. -/
  writeMessage : HandshakeState → Bytes → Bytes → Option (HandshakeState × Bytes)
  intoTransport : HandshakeState → Option TransportState
  writeTransport : TransportState → UInt64 → Bytes → Option Bytes
  readTransport : TransportState → UInt64 → Bytes → Option Bytes

/-- The derived encodings of what travels. -/
structure Formats where
  ctlPacket : Codec CtlPacket
  handshakePayload : Codec HandshakePayload
  welcome : Codec Welcome
  claims : Codec (SessionId × Bytes × Token)

structure ReplayWindow where
  highest : UInt64
  bitmap : UInt64
  any : Bool
deriving DecidableEq

namespace ReplayWindow

def window : UInt64 := 64

def new : ReplayWindow := { highest := 0, bitmap := 0, any := false }

def accept (w : ReplayWindow) (counter : UInt64) : ReplayWindow × Bool :=
  if !w.any then ({ highest := counter, bitmap := 1, any := true }, true)
  else if w.highest < counter then
    let shift := counter - w.highest
    ({ w with
      bitmap := (if window ≤ shift then 0 else w.bitmap <<< shift) ||| 1
      highest := counter }, true)
  else
    let offset := w.highest - counter
    if window ≤ offset then (w, false)
    else if w.bitmap &&& (1 <<< offset) ≠ 0 then (w, false)
    else ({ w with bitmap := w.bitmap ||| (1 <<< offset) }, true)

end ReplayWindow

namespace Transport

def ascii (s : String) : Bytes := s.toUTF8.data.toList

def prologue (version : UInt16) (sessionId : SessionId) : Bytes :=
  ascii "jamstream" ++ Wire.u16Le version ++ (Codec.array 16).ser sessionId

variable (X : Crypto)

def rejectKeyFromDh (priv pub : Bytes) : Option Digest :=
  if priv.length ≠ 32 ∨ pub.length ≠ 32 then none
  else (X.diffieHellman priv pub).map fun shared =>
    X.blake2s (ascii "jamstream-version-reject-key-v1" ++ shared)

def cookieKey (serverPrivate : Bytes) (epoch : UInt64) : Digest :=
  X.blake2s (ascii "jamstream-cookie-secret-v1" ++ serverPrivate ++ Wire.u64Le epoch)

def cookieReplyKey (serverPublic : Bytes) : Digest :=
  X.blake2s (ascii "jamstream-cookie-reply-key-v1" ++ serverPublic)

def rejectKeyForInit (serverPrivate : Bytes) (sessionId : SessionId) (versionTheirs : UInt16)
    (noise : Bytes) : Option Digest :=
  (X.readMessage serverPrivate (prologue versionTheirs sessionId) noise).bind fun r =>
    (X.remoteStatic r.1).bind (rejectKeyFromDh X serverPrivate)

end Transport

namespace Wire
open Transport
variable (X : Crypto)

def rejectMac (key : Digest) (ours theirs : UInt16) (initPacket : Bytes) : Bytes :=
  X.blake2sMac 16 key (ascii "jamstream-version-reject" ++ u16Le ours ++ u16Le theirs ++
    initPacket.take 64)

def capacityMac (key : Digest) (initPacket : Bytes) : Bytes :=
  X.blake2sMac 16 key (ascii "jamstream-capacity-reject" ++ initPacket.take 64)

def buildVersionReject (key : Digest) (ours theirs : UInt16) (initPacket : Bytes) : Bytes :=
  typeVersionReject :: (u16Le ours ++ u16Le theirs ++ rejectMac X key ours theirs initPacket)

def buildCapacityReject (key : Digest) (initPacket : Bytes) : Bytes :=
  typeCapacityReject :: capacityMac X key initPacket

def cookieFor (key : Digest) (source : IpAddr) : Bytes :=
  X.blake2sMac 16 key (ascii "jamstream-cookie" ++ source.tagged)

def cookieMatches (key : Digest) (source : IpAddr) (cookie : Bytes) : Bool :=
  cookieFor X key source == cookie

def challengeNonce (key : Digest) (source : IpAddr) (initPacket : Bytes) : Bytes :=
  X.blake2sMac 24 key (ascii "jamstream-cookie-nonce" ++ source.tagged ++ initPacket)

def buildCookieChallenge (replyKey key : Digest) (source : IpAddr) (initPacket : Bytes) : Bytes :=
  let nonce := challengeNonce X key source initPacket
  typeCookieChallenge ::
    (nonce ++ X.xchachaSeal replyKey nonce (cookieFor X key source) initPacket)

end Wire

/-- An established connection: counters on the way out, a replay window on the way in. -/
structure Session (X : Crypto) where
  ts : X.TransportState
  sendCounter : UInt64
  replay : ReplayWindow

namespace Session
variable {X : Crypto}

def new (ts : X.TransportState) : Session X := { ts, sendCounter := 0, replay := .new }

def sealInto (s : Session X) (member : MemberId) (plaintext : Bytes) : Session X × Option Bytes :=
  ({ s with sendCounter := s.sendCounter + 1 },
    (X.writeTransport s.ts s.sendCounter plaintext).map fun ciphertext =>
      Wire.transportHeader member s.sendCounter ++ ciphertext)

/-- The window moves only after authentication, so garbage cannot poison it. -/
def openPacket (s : Session X) (counter : UInt64) (ciphertext : Bytes) :
    Session X × Except Error Bytes :=
  match X.readTransport s.ts counter ciphertext with
  | none => (s, .error .decrypt)
  | some plain =>
    let r := s.replay.accept counter
    ({ s with replay := r.1 }, if r.2 then .ok plain else .error .replay)

end Session

structure Responder (X : Crypto) where
  hs : X.HandshakeState
  remoteStatic : Bytes

namespace Responder
variable {X : Crypto}

def readInit (F : Formats) (serverPrivate : Bytes) (sessionId : SessionId)
    (versionTheirs : UInt16) (noise : Bytes) : Except Error (HandshakePayload × Responder X) :=
  if versionTheirs ≠ protocolVersion then
    .error (.versionMismatch protocolVersion versionTheirs)
  else
    match X.readMessage serverPrivate (Transport.prologue versionTheirs sessionId) noise with
    | none => .error .handshake
    | some (hs, payload) =>
      match F.handshakePayload.de payload with
      | none => .error .encode
      | some (_, _ :: _) => .error .malformed
      | some (hp, []) =>
        match X.remoteStatic hs with
        | none => .error .malformed
        | some remoteStatic =>
          if remoteStatic.length = 32 then .ok (hp, { hs, remoteStatic }) else .error .malformed

def rejectKey (r : Responder X) (serverPrivate : Bytes) : Option Digest :=
  Transport.rejectKeyFromDh X serverPrivate r.remoteStatic

def respond (r : Responder X) (F : Formats) (welcome : Welcome) (ephemeral : Bytes) :
    Except Error (Session X × Bytes) :=
  match X.writeMessage r.hs (F.welcome.ser welcome) ephemeral with
  | none => .error .handshake
  | some (hs, msg) =>
    match X.intoTransport hs with
    | none => .error .handshake
    | some ts => .ok (.new ts, Wire.buildHandshakeResp msg)

end Responder

def claims (F : Formats) (sessionId : SessionId) (serverPk : Bytes) (token : Token) : Bytes :=
  Transport.ascii "jamstream-token-v1" ++ F.claims.ser (sessionId, serverPk, token)

def verifyToken (X : Crypto) (F : Formats) (issuerPk : Bytes) (sessionId : SessionId)
    (serverPk : Bytes) (token : Token) (signature : Bytes) (nowUnix : UInt64) :
    Except Error Unit :=
  if !X.verify issuerPk (claims F sessionId serverPk token) signature then
    .error (.token "has a bad signature")
  else if token.expiresUnix ≤ nowUnix then .error (.token "has expired")
  else .ok ()

end JamStream.Protocol
