import JamStream.Foundations.Postcard
import JamStream.Protocol.ControlLink

/-! The outer framing of a datagram: one type byte, then fixed fields in
little-endian order, then whatever the type carries. -/

namespace JamStream.Protocol
open Foundations Codec

def protocolVersion : UInt16 := 2

inductive IpAddr
  | v4 (octets : BitVec 32)
  | v6 (octets : BitVec 128)
deriving DecidableEq

/-- The v6 form carries a flow label and a scope, and is compared with them. -/
inductive SocketAddr
  | v4 (octets : BitVec 32) (port : UInt16)
  | v6 (octets : BitVec 128) (port : UInt16) (flowinfo scopeId : UInt32)
deriving DecidableEq

namespace SocketAddr

def new : IpAddr → UInt16 → SocketAddr
  | .v4 octets, port => .v4 octets port
  | .v6 octets, port => .v6 octets port 0 0

def ip : SocketAddr → IpAddr
  | .v4 octets _ => .v4 octets
  | .v6 octets _ _ _ => .v6 octets

def port : SocketAddr → UInt16
  | .v4 _ port | .v6 _ port _ _ => port

def Unscoped : SocketAddr → Prop
  | .v4 .. => True
  | .v6 _ _ flowinfo scopeId => flowinfo = 0 ∧ scopeId = 0

theorem new_eq_iff (a : SocketAddr) : new a.ip a.port = a ↔ a.Unscoped := by
  cases a with
  | v4 octets port => exact iff_of_true rfl trivial
  | v6 octets port flowinfo scopeId =>
    simp only [new, ip, SocketAddr.port, v6.injEq, true_and, Unscoped]
    exact and_congr eq_comm eq_comm

end SocketAddr

/-- Tagged by family, so a v4 address and the v6 form of it cannot collide. -/
def IpAddr.tagged : IpAddr → Bytes
  | .v4 octets => 4 :: (array 4).ser octets
  | .v6 octets => 6 :: (array 16).ser octets

/-- The network an address belongs to: one v4 address or one v6 /64. -/
def IpAddr.network : IpAddr → Bytes
  | .v4 octets => 4 :: (array 4).ser octets
  | .v6 octets => 6 :: ((array 16).ser octets).take 8

namespace Wire

def typeHandshakeInit : UInt8 := 1
def typeHandshakeResp : UInt8 := 2
def typeTransport : UInt8 := 3
def typeVersionReject : UInt8 := 4
def typeCapacityReject : UInt8 := 5
def typeCookieChallenge : UInt8 := 6
def typeCookiedInit : UInt8 := 7

def cookieBytes : ℕ := 16
def cookieNonceBytes : ℕ := 24
def cookieSealedBytes : ℕ := cookieBytes + 16

inductive Packet
  | handshakeInit (version : UInt16) (noise : Bytes)
  | handshakeResp (noise : Bytes)
  | transport (member : MemberId) (counter : UInt64) (ciphertext : Bytes)
  | versionReject (ours theirs : UInt16) (mac : Bytes)
  | capacityReject (mac : Bytes)
  | cookieChallenge (nonce sealed : Bytes)
  | cookiedInit (cookie : Bytes) (version : UInt16) (noise : Bytes)
deriving DecidableEq

def u16Le (n : UInt16) : Bytes := le 2 n.toNat
def u64Le (n : UInt64) : Bytes := le 8 n.toNat

/-- The little-endian number in the first `k` bytes, absent ones counted as zero. -/
def leNat (k : ℕ) (bs : Bytes) : ℕ := (bs.take k).foldr (fun b n => b.toNat + 256 * n) 0

def parse (buf : Bytes) : Except Error Packet :=
  match buf with
  | [] => .error .malformed
  | tag :: rest =>
    if tag = typeHandshakeInit then
      if rest.length < 2 then .error .malformed
      else .ok (.handshakeInit (UInt16.ofNat (leNat 2 rest)) (rest.drop 2))
    else if tag = typeHandshakeResp then .ok (.handshakeResp rest)
    else if tag = typeTransport then
      if rest.length < 10 then .error .malformed
      else .ok (.transport (UInt16.ofNat (leNat 2 rest)) (UInt64.ofNat (leNat 8 (rest.drop 2)))
        (rest.drop 10))
    else if tag = typeVersionReject then
      if rest.length ≠ 20 then .error .malformed
      else .ok (.versionReject (UInt16.ofNat (leNat 2 rest)) (UInt16.ofNat (leNat 2 (rest.drop 2)))
        (rest.drop 4))
    else if tag = typeCapacityReject then
      if rest.length ≠ 16 then .error .malformed else .ok (.capacityReject rest)
    else if tag = typeCookieChallenge then
      if rest.length ≠ cookieNonceBytes + cookieSealedBytes then .error .malformed
      else .ok (.cookieChallenge (rest.take cookieNonceBytes) (rest.drop cookieNonceBytes))
    else if tag = typeCookiedInit then
      if rest.length < cookieBytes + 2 then .error .malformed
      else .ok (.cookiedInit (rest.take cookieBytes)
        (UInt16.ofNat (leNat 2 (rest.drop cookieBytes))) (rest.drop (cookieBytes + 2)))
    else .error (.unknownPacketType tag)

def buildHandshakeInit (version : UInt16) (noise : Bytes) : Bytes :=
  typeHandshakeInit :: (u16Le version ++ noise)

def buildHandshakeResp (noise : Bytes) : Bytes := typeHandshakeResp :: noise

def transportHeader (member : MemberId) (counter : UInt64) : Bytes :=
  typeTransport :: (u16Le member ++ u64Le counter)

end Wire
end JamStream.Protocol
