import JamStream.Foundations.Codec
import JamStream.Protocol.ControlMsg

/-! The reliable control link: sequence numbers per link, a cumulative ack with a
32-bit selective bitmap, a send window and retransmission with backoff. Counters
are the source's own 64-bit words, so window arithmetic wraps where it does there. -/

namespace JamStream.Protocol
open Foundations Std

def channelMedia : UInt8 := 0
def channelControl : UInt8 := 1

def rtoInitialMs : UInt64 := 100
def rtoMaxMs : UInt64 := 2000
def maxSends : UInt32 := 36
def recvWindow : UInt64 := 32
def maxPending : ℕ := 128

structure CtlPacket where
  ack : UInt64
  ackBits : UInt32
  frame : Option (UInt64 × ControlMsg)
deriving DecidableEq

structure Pending where
  seq : UInt64
  msg : ControlMsg
  nextSendMs : UInt64
  sends : UInt32
deriving DecidableEq

structure ControlLink where
  nextSeq : UInt64
  pending : List Pending
  peerAck : UInt64
  recvNext : UInt64
  outOfOrder : ExtTreeMap UInt64 ControlMsg
  needAck : Bool
  dead : Bool

def encode (C : Codec CtlPacket) (pkt : CtlPacket) : Bytes := channelControl :: C.ser pkt

/-- Whether an ack accounts for a frame: below the cumulative ack, or one of the
32 entries behind it that the bitmap covers. -/
def CtlPacket.covers (pkt : CtlPacket) (seq : UInt64) : Bool :=
  seq < pkt.ack || (pkt.ack < seq && seq - pkt.ack ≤ 32 &&
    (pkt.ackBits >>> (seq - pkt.ack - 1).toUInt32) &&& 1 == 1)

namespace ControlLink

def new : ControlLink :=
  { nextSeq := 0, pending := [], peerAck := 0, recvNext := 0, outOfOrder := ∅,
    needAck := false, dead := false }

def send (l : ControlLink) (msg : ControlMsg) : Except Error ControlLink :=
  match checkLengths msg with
  | .error e => .error e
  | .ok () =>
    if maxPending ≤ l.pending.length then .error .linkFull
    else .ok { l with
      nextSeq := l.nextSeq + 1
      pending := l.pending ++ [{ seq := l.nextSeq, msg, nextSendMs := 0, sends := 0 }] }

def ackBits (l : ControlLink) : UInt32 :=
  (List.range 32).foldl (fun bits i =>
    if l.outOfOrder.contains (l.recvNext + 1 + UInt64.ofNat i) then bits ||| (1 <<< UInt32.ofNat i)
    else bits) 0

def backoff (sends : UInt32) : UInt64 :=
  min (rtoInitialMs <<< (min sends 6).toUInt64) rtoMaxMs

/-- One pass over the queue. `pending` is in ascending order, so the first frame
past the window ends it; the result is the queue, what goes out, and whether
some frame has used up its attempts. -/
def pollScan (limit nowMs : UInt64) (datagram : Pending → Bytes) :
    List Pending → List Pending × List Bytes × Bool
  | [] => ([], [], false)
  | p :: ps =>
    if limit ≤ p.seq then (p :: ps, [], false)
    else
      let r := pollScan limit nowMs datagram ps
      if nowMs < p.nextSendMs then (p :: r.1, r.2.1, r.2.2)
      else if maxSends ≤ p.sends then (p :: r.1, r.2.1, true)
      else ({ p with nextSendMs := nowMs + backoff p.sends, sends := p.sends + 1 } :: r.1,
        datagram p :: r.2.1, r.2.2)

def sendLimit (l : ControlLink) : UInt64 := l.peerAck + recvWindow

def framePacket (l : ControlLink) (p : Pending) : CtlPacket :=
  { ack := l.recvNext, ackBits := l.ackBits, frame := some (p.seq, p.msg) }

/-- Any datagram that goes out carries the ack, and a bare one goes out when an
ack is owed and nothing else does, so none is owed afterwards. -/
def poll (C : Codec CtlPacket) (l : ControlLink) (nowMs : UInt64) : ControlLink × List Bytes :=
  let r := pollScan l.sendLimit nowMs (fun p => encode C (l.framePacket p)) l.pending
  ({ l with pending := r.1, dead := l.dead || r.2.2, needAck := false },
    if l.needAck && r.2.1.isEmpty then
      [encode C { ack := l.recvNext, ackBits := l.ackBits, frame := none }]
    else r.2.1)

/-- Delivers the run of buffered frames that starts at `next`. Each round takes
one frame out of the buffer, so its size is fuel enough. -/
def drain : ℕ → UInt64 → ExtTreeMap UInt64 ControlMsg →
    UInt64 × ExtTreeMap UInt64 ControlMsg × List ControlMsg
  | 0, next, buf => (next, buf, [])
  | n + 1, next, buf =>
    match buf[next]? with
    | none => (next, buf, [])
    | some msg =>
      let r := drain n (next + 1) (buf.erase next)
      (r.1, r.2.1, msg :: r.2.2)

def takeAck (l : ControlLink) (pkt : CtlPacket) : ControlLink :=
  { l with
    peerAck := max l.peerAck pkt.ack
    pending := l.pending.filter fun p => !pkt.covers p.seq }

def inWindow (l : ControlLink) (seq : UInt64) : Bool :=
  l.recvNext ≤ seq && seq < l.recvNext + recvWindow

def takeFrame (l : ControlLink) (seq : UInt64) (msg : ControlMsg) :
    ControlLink × List ControlMsg :=
  if l.inWindow seq && !l.outOfOrder.contains seq then
    let buf := l.outOfOrder.insert seq msg
    let r := drain buf.size l.recvNext buf
    ({ l with recvNext := r.1, outOfOrder := r.2.1 }, r.2.2)
  else (l, [])

/-- `receive` from the decoded packet on. The ack is taken even when the frame
that came with it is refused. -/
def receivePacket (l : ControlLink) (pkt : CtlPacket) :
    ControlLink × Except Error (List ControlMsg) :=
  let l := l.takeAck pkt
  match pkt.frame with
  | none => (l, .ok [])
  | some (seq, msg) =>
    let l := { l with needAck := true }
    match checkLengths msg with
    | .error e => (l, .error e)
    | .ok () =>
      let r := l.takeFrame seq msg
      (r.1, .ok r.2)

def receive (C : Codec CtlPacket) (l : ControlLink) (buf : Bytes) :
    ControlLink × Except Error (List ControlMsg) :=
  match buf with
  | [] => (l, .error .malformed)
  | tag :: body =>
    if tag = channelControl then
      match C.de body with
      | none => (l, .error .encode)
      | some (pkt, []) => l.receivePacket pkt
      | some (_, _ :: _) => (l, .error .malformed)
    else (l, .error .malformed)

def isDead (l : ControlLink) : Bool := l.dead
def pendingLen (l : ControlLink) : ℕ := l.pending.length
def buffered (l : ControlLink) : ℕ := l.outOfOrder.size

end ControlLink
end JamStream.Protocol
