import JamStream.Protocol.Transport

/-! The client's side of the handshake, and what a client checks before it believes a
reject or a cookie. What generating a first flight draws at random comes with the flight. -/

namespace JamStream.Protocol
open Foundations

/-- The Noise IK initiator, and XChaCha20-Poly1305 the other way. -/
structure ClientCrypto (X : Crypto) where
  InitiatorState : Type
  /-- The second message: the state that reading it leaves, and its payload unless it is
  refused. -/
  readMessage : InitiatorState → Bytes → InitiatorState × Option Bytes
  intoTransport : InitiatorState → Option X.TransportState
  xchachaOpen : Digest → Bytes → Bytes → Bytes → Option Bytes

/-- A read that is refused puts the state back to what it was. -/
def ClientCrypto.Restores {X : Crypto} (N : ClientCrypto X) : Prop :=
  ∀ hs noise, (N.readMessage hs noise).2 = none → (N.readMessage hs noise).1 = hs

namespace Wire
variable (X : Crypto)

def verifyVersionReject (key : Digest) (ours theirs : UInt16) (mac initPacket : Bytes) : Bool :=
  rejectMac X key ours theirs initPacket == mac

def verifyCapacityReject (key : Digest) (mac initPacket : Bytes) : Bool :=
  capacityMac X key initPacket == mac

/-- A cookie opens against the init it answers and no other. -/
def openCookieChallenge (N : ClientCrypto X) (replyKey : Digest)
    (nonce sealed initPacket : Bytes) : Option Bytes :=
  (N.xchachaOpen replyKey nonce sealed initPacket).filter fun plain => plain.length = cookieBytes

def buildCookiedInit (cookie : Bytes) (version : UInt16) (noise : Bytes) : Bytes :=
  typeCookiedInit :: (cookie ++ u16Le version ++ noise)

end Wire

structure Initiator {X : Crypto} (N : ClientCrypto X) where
  hs : N.InitiatorState
  rejectKey : Option Digest

structure HandshakeRetry {X : Crypto} (N : ClientCrypto X) where
  error : Error
  initiator : Option (Initiator N)

namespace Initiator
variable {X : Crypto} {N : ClientCrypto X}

/-- What reads but cannot be used has spent the state. -/
def finish (F : Formats) (i : Initiator N) (noise : Bytes) :
    Except (HandshakeRetry N) (Session X × Welcome) :=
  match N.readMessage i.hs noise with
  | (hs, none) => .error { error := .handshake, initiator := some { i with hs } }
  | (hs, some payload) =>
    match F.welcome.de payload with
    | none => .error { error := .encode, initiator := none }
    | some (_, _ :: _) => .error { error := .malformed, initiator := none }
    | some (welcome, []) =>
      match N.intoTransport hs with
      | none => .error { error := .handshake, initiator := none }
      | some ts => .ok (.new ts, welcome)

theorem finish_of_refused (h : N.Restores) (F : Formats) (i : Initiator N) {noise : Bytes}
    (hread : (N.readMessage i.hs noise).2 = none) :
    i.finish F noise = .error { error := .handshake, initiator := some i } := by
  have hrestored := h i.hs noise hread
  unfold finish
  generalize N.readMessage i.hs noise = r at hread hrestored
  obtain ⟨hs, payload⟩ := r
  subst hread hrestored
  rfl

end Initiator
end JamStream.Protocol
