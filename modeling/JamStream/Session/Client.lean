import JamStream.Protocol.Initiator
import JamStream.Session.ClientCore

/-! The client core as its driver calls it: the handshake and what authenticates its
answers, around the control half. A first flight comes with the call that starts it. -/

namespace JamStream.Session
open Protocol Engine Foundations

def initResendMs : UInt64 := 500
def initResendMaxMs : UInt64 := 2000
def rejectRetryMs : UInt64 := 5000
def rejectRetryMaxMs : UInt64 := 60000
def cookieAnswerBurst : UInt32 := 4
def cookieAnswerPerSec : UInt32 := 1

variable {X : Externals}

structure Client (N : ClientCrypto X.toCrypto) where
  core : ClientCore
  initiator : Option (Initiator N)
  /-- The exact init on the wire: rejects and cookies are bound to it. -/
  initPacket : Bytes
  rejectKey : Option Digest
  cookiedInit : Option Bytes
  cookieAnswers : TokenBucket
  cookieReplyKey : Digest
  session : Option (Protocol.Session X.toCrypto)
  /-- The rest of the welcome; whom it is for stands in the control half. -/
  sampleClock : Option UInt64
  jitter : X.Jitter
  lastInitMs : UInt64
  initResendMs : UInt64

namespace Client
variable {N : ClientCrypto X.toCrypto}

def connect (serverPk : Bytes) (flight : Initiator N × Bytes) (nowMs : UInt64) : Client N :=
  { core := .connect nowMs, initiator := some flight.1, initPacket := flight.2
    rejectKey := flight.1.rejectKey, cookiedInit := none
    cookieAnswers := .new cookieAnswerBurst cookieAnswerPerSec
    cookieReplyKey := Transport.cookieReplyKey X.toCrypto serverPk, session := none
    sampleClock := none, jitter := X.jitterNew, lastInitMs := nowMs
    initResendMs := Session.initResendMs }

/-- The answer budget survives, so a reconnect is no way round it. -/
def reconnect (c : Client N) (flight : Initiator N × Bytes) (nowMs : UInt64) : Client N :=
  { c with
    core := c.core.reconnect nowMs, initiator := some flight.1, initPacket := flight.2
    rejectKey := flight.1.rejectKey, cookiedInit := none, session := none, sampleClock := none
    jitter := X.jitterNew, lastInitMs := nowMs, initResendMs := Session.initResendMs }

/-- A rejected client keeps trying, so it takes an answer too. -/
def awaits (c : Client N) : Bool :=
  match c.core.state with
  | .connecting | .rejected .. => true
  | _ => false

def handshakeResp (c : Client N) (nowMs : UInt64) (noise : Bytes) : Client N :=
  if c.awaits then
    match c.initiator with
    | none => c
    | some initiator =>
      match initiator.finish X.toFormats noise with
      | .ok (session, welcome) =>
        { c with
          core := c.core.handshakeResp nowMs welcome.memberId, initiator := none
          session := some session, sampleClock := some welcome.sampleClock }
      | .error retry => { c with initiator := retry.initiator }
  else c

def versionReject (c : Client N) (nowMs : UInt64) (ours theirs : UInt16) (mac : Bytes) : Client N :=
  if c.core.state = .connecting ∧ c.rejectKey.any fun key =>
      Wire.verifyVersionReject X.toCrypto key ours theirs mac c.initPacket then
    { c with
      core := c.core.versionReject ours theirs, lastInitMs := nowMs
      initResendMs := rejectRetryMs }
  else c

/-- Acted on once for each attempt: replayed, it would hold the client off. -/
def capacityReject (c : Client N) (nowMs : UInt64) (mac : Bytes) : Client N :=
  if !c.core.sessionFull ∧ c.core.state = .connecting ∧ c.rejectKey.any fun key =>
      Wire.verifyCapacityReject X.toCrypto key mac c.initPacket then
    { c with core := c.core.capacityReject, lastInitMs := nowMs, initResendMs := rejectRetryMs }
  else c

def cookieChallenge (c : Client N) (nowMs : UInt64) (nonce sealed : Bytes) :
    Client N × List Bytes :=
  if c.core.state ≠ .connecting then (c, [])
  else
    match Wire.openCookieChallenge X.toCrypto N c.cookieReplyKey nonce sealed c.initPacket,
        Wire.parse c.initPacket with
    | some cookie, .ok (.handshakeInit version noise) =>
      let cookied := Wire.buildCookiedInit cookie version noise
      if c.cookiedInit = some cookied then (c, [])
      else
        let (cookieAnswers, taken) := c.cookieAnswers.take nowMs
        if taken then
          ({ c with cookieAnswers, cookiedInit := some cookied }, [c.initPacket, cookied])
        else ({ c with cookieAnswers }, [])
    | _, _ => (c, [])

def sealAll (member : MemberId) :
    List Bytes → Protocol.Session X.toCrypto → Protocol.Session X.toCrypto × List Bytes
  | [], session => (session, [])
  | plain :: rest, session =>
    let r := session.sealInto member plain
    let r' := sealAll member rest r.1
    (r'.1, r.2.toList ++ r'.2)

def sendAll (c : Client N) (plains : List Bytes) : Client N × List Bytes :=
  match c.core.memberId, c.session with
  | some member, some session =>
    ({ c with session := some (sealAll member plains session).1 },
      (sealAll member plains session).2)
  | _, _ => (c, [])

/-- An opened control packet: what it holds, then whatever the link has to say to it. -/
def controlPacket (c : Client N) (nowMs : UInt64) (plain : Bytes) : Client N × List Bytes :=
  let received := c.core.link.receive X.ctlPacket plain
  let core := (received.2.toOption.getD []).foldl (fun core msg => core.handleControl X nowMs msg)
    { c.core with link := received.1 }
  let flushed := core.flushLink X nowMs
  { c with core := flushed.1 }.sendAll flushed.2

def mediaPacket (c : Client N) (plain : Bytes) : Client N :=
  match MediaFrame.decode plain with
  | .ok f =>
    let packet : MediaPacket := { seq := f.seq, timestamp := f.timestamp
                                  payload := f.payload, redundant := f.redundant }
    { c with jitter := X.jitterPush c.jitter packet }
  | .error _ => c

/-- Whatever opens counts as being heard from, the channel it names or not. -/
def opened (c : Client N) (nowMs : UInt64) (plain : Bytes) : Client N × List Bytes :=
  let c := { c with core := { c.core with lastServerMs := nowMs } }
  match plain with
  | [] => (c, [])
  | channel :: _ =>
    if channel = channelMedia then (c.mediaPacket plain, [])
    else if channel = channelControl then c.controlPacket nowMs plain
    else (c, [])

def transport (c : Client N) (nowMs counter : UInt64) (ciphertext : Bytes) :
    Client N × List Bytes :=
  match c.session with
  | none => (c, [])
  | some session =>
    match session.openPacket counter ciphertext with
    | (session, .error _) => ({ c with session := some session }, [])
    | (session, .ok plain) => { c with session := some session }.opened nowMs plain

def handleDatagram (c : Client N) (nowMs : UInt64) (data : Bytes) : Client N × List Bytes :=
  match Wire.parse data with
  | .error _ => (c, [])
  | .ok (.handshakeResp noise) => (c.handshakeResp nowMs noise, [])
  | .ok (.versionReject ours theirs mac) => (c.versionReject nowMs ours theirs mac, [])
  | .ok (.capacityReject mac) => (c.capacityReject nowMs mac, [])
  | .ok (.transport _ counter ciphertext) => c.transport nowMs counter ciphertext
  | .ok (.cookieChallenge nonce sealed) => c.cookieChallenge nowMs nonce sealed
  | .ok (.handshakeInit ..) | .ok (.cookiedInit ..) => (c, [])

/-- The same init again, and the cookied form of it while there is one. -/
def resend (c : Client N) (nowMs cap : UInt64) (packets : List Bytes) : Client N × List Bytes :=
  if c.initResendMs ≤ saturatingSub nowMs c.lastInitMs then
    ({ c with lastInitMs := nowMs, initResendMs := min (c.initResendMs * 2) cap }, packets)
  else (c, [])

def poll (c : Client N) (nowMs : UInt64) : Client N × List Bytes :=
  match c.core.state with
  | .connecting =>
    let core := (c.core.poll X nowMs).1
    if core.state = .timedOut then ({ c with core }, [])
    else
      c.resend nowMs (if c.core.sessionFull then rejectRetryMaxMs else initResendMaxMs)
        (c.initPacket :: c.cookiedInit.toList)
  | .joined =>
    let polled := c.core.poll X nowMs
    { c with core := polled.1 }.sendAll polled.2
  | .rejected .. => c.resend nowMs rejectRetryMaxMs [c.initPacket]
  | _ => (c, [])

end Client
end JamStream.Session
