import JamStream.Session.Admission
import JamStream.Session.Control
import JamStream.Session.Tick

/-! The entry points of the core, and its runs: any sequence of calls a driver can
make. The ephemeral key of a handshake answer and the lines another thread writes
to the log come with the call. -/

namespace JamStream.Session
open Protocol Engine Foundations
variable {X : Externals}

namespace Member

/-- One authenticated packet: media goes to the jitter buffer, control to the link. -/
def takePlain (m : Member X) (plain : Bytes) :
    Member X × Except String (Option (List ControlMsg)) :=
  match plain with
  | [] => (m, .error "unknown channel")
  | channel :: _ =>
    if channel = channelMedia then
      if m.role ≠ .musician then (m, .error "media from listener")
      else
        match MediaFrame.decode plain with
        | .error _ => (m, .error "malformed media frame")
        | .ok f =>
          let packet : MediaPacket := { seq := f.seq, timestamp := f.timestamp
                                        payload := f.payload, redundant := f.redundant }
          ({ m with jitter := X.jitterPush m.jitter packet }, .ok none)
    else if channel = channelControl then
      match m.link.receive X.ctlPacket plain with
      | (link, .ok msgs) => ({ m with link }, .ok (some msgs))
      | (link, .error _) => ({ m with link }, .error "malformed control packet")
    else (m, .error "unknown channel")

/-- A packet that will not open is counted and dropped. -/
def refuseOpen (m : Member X) (session : Protocol.Session X.toCrypto) : Member X :=
  { m with
    session := some session
    opensRefused := if m.opensRefused = 0xFFFFFFFFFFFFFFFF then m.opensRefused
      else m.opensRefused + 1 }

/-- An authenticated packet from a new address is a rebind. -/
def heard (m : Member X) (session : Protocol.Session X.toCrypto) (src : SocketAddr)
    (nowMs : UInt64) : Member X :=
  { m with session := some session, addr := some src, lastHeardMs := nowMs }

end Member

namespace ServerCore

/-- A transport packet as far as the member it is from: nothing when it is dropped,
or what it held. -/
def openTransport (s : ServerCore X) (nowMs : UInt64) (src : SocketAddr) (id : MemberId)
    (counter : UInt64) (ciphertext : Bytes) :
    ServerCore X × Option (Except String (Option (List ControlMsg))) :=
  match s.members[id]? with
  | none => (s, none)
  | some m =>
    if !m.connected then (s, none)
    else
      match m.session with
      | none => (s, none)
      | some session =>
        match session.openPacket counter ciphertext with
        | (session, .error _) => (s.update id fun m => m.refuseOpen session, none)
        | (session, .ok plain) =>
          (s.update id fun m => ((m.heard session src nowMs).takePlain plain).1,
            some ((m.heard session src nowMs).takePlain plain).2)

def handlePlain (s : ServerCore X) (nowMs : UInt64) (id : MemberId)
    (result : Except String (Option (List ControlMsg))) : ServerCore X × Outgoing :=
  match result with
  | .error what => (s.violation nowMs id what, [])
  | .ok none => (s, [])
  | .ok (some msgs) =>
    let r := handleBatch nowMs id msgs s
    let flushed := r.1.flushMemberLink nowMs id
    (flushed.1, r.2 ++ flushed.2)

def handleTransport (s : ServerCore X) (nowMs : UInt64) (src : SocketAddr) (id : MemberId)
    (counter : UInt64) (ciphertext : Bytes) : ServerCore X × Outgoing :=
  match s.openTransport nowMs src id counter ciphertext with
  | (s, none) => (s, [])
  | (s, some result) => s.handlePlain nowMs id result

def handleDatagram (s : ServerCore X) (nowMs nowUnix : UInt64) (src : SocketAddr)
    (data ephemeral : Bytes) : ServerCore X × Outgoing :=
  match Wire.parse data with
  | .ok (.handshakeInit version noise) =>
    if version ≠ protocolVersion then s.versionReject nowMs src version noise data
    else
      let r := s.cookieRequired nowMs
      if r.2 then r.1.cookieChallenge nowMs src data
      else r.1.admitInit nowMs nowUnix src noise ephemeral
  | .ok (.cookiedInit cookie version noise) =>
    let r := s.cookieRequired nowMs
    if version = protocolVersion ∧ r.1.cookieValid nowMs src cookie then
      r.1.admitInit nowMs nowUnix src noise ephemeral
    else (r.1, [])
  | .ok (.transport member counter ciphertext) =>
    s.handleTransport nowMs src member counter ciphertext
  | _ => (s, [])

def shutdown (s : ServerCore X) (nowMs : UInt64) (reason : String) : ServerCore X × Outgoing :=
  let s := s.feedServerLog nowMs
  let connected := (s.members.toList.filter fun e => e.2.connected).map Prod.fst
  let r := connected.foldl (fun (r : ServerCore X × Outgoing) id =>
    let f := r.1.farewell nowMs id reason
    ((f.1.disconnectMember id).emit (.memberDisconnected id), r.2 ++ f.2)) (s, [])
  (r.1.noteMusicianCount, r.2)

def dropPeer (s : ServerCore X) (addr : SocketAddr) : ServerCore X :=
  match s.members.toList.find? fun e => e.2.connected && e.2.addr = some addr with
  | none => s
  | some (id, _) =>
    (((s.disconnectMember id).emit (.memberDisconnected id)).queueRoster).noteMusicianCount

def restoreRevoked (s : ServerCore X) (jtis : List TokenId) : ServerCore X :=
  { s with revoked := s.revoked ∪ jtis.toFinset }

def setBroadcastTap (s : ServerCore X) (on : Bool) : ServerCore X :=
  if s.bcastTap = on then s
  else { s with
    bcastTap := on
    members := s.members.map fun _ m =>
      if on then m else { m with levelPeak := X.zero, levelRms := X.zero } }

def setStreamStatus (s : ServerCore X) (nowMs : UInt64) (destinations : List DestinationStatus) :
    ServerCore X :=
  let due := !destinations.isEmpty &&
    streamStatusIntervalMs ≤ saturatingSub nowMs s.lastStreamStatusMs
  if destinations ≠ s.streamStatus ∨ due then
    { s with streamStatus := destinations, lastStreamStatusMs := nowMs }.relay
      (.streamStatus destinations)
  else { s with streamStatus := destinations }

def setBroadcastReadiness (s : ServerCore X) (state : BroadcastReadiness) : ServerCore X :=
  if s.broadcastReady = some state then s
  else { s with broadcastReady := some state }.relay (.broadcastReadiness state)

def setRecordStatus (s : ServerCore X) (state : RecordingState) (stems : Bool) : ServerCore X :=
  if state = s.recordStatus ∧ stems = s.recordStems then s
  else { s with recordStatus := state, recordStems := stems }.relay (.recordStatus state stems)

end ServerCore

inductive Call
  | handleDatagram (nowMs nowUnix : UInt64) (src : SocketAddr) (data ephemeral : Bytes)
  | tick (nowMs : UInt64)
  | shutdown (nowMs : UInt64) (reason : String)
  | dropPeer (addr : SocketAddr)
  | setBroadcastTap (on : Bool)
  | setStreamStatus (nowMs : UInt64) (destinations : List DestinationStatus)
  | setBroadcastReadiness (state : BroadcastReadiness)
  | setRecordStatus (state : RecordingState) (stems : Bool)
  /-- Drains the events. -/
  | events
  /-- A line the process wrote to its log. -/
  | log (line : String)

namespace ServerCore

def call (s : ServerCore X) : Call → ServerCore X × Outgoing
  | .handleDatagram nowMs nowUnix src data ephemeral =>
    s.handleDatagram nowMs nowUnix src data ephemeral
  | .tick nowMs => s.tick nowMs
  | .shutdown nowMs reason => s.shutdown nowMs reason
  | .dropPeer addr => (s.dropPeer addr, [])
  | .setBroadcastTap on => (s.setBroadcastTap on, [])
  | .setStreamStatus nowMs destinations => (s.setStreamStatus nowMs destinations, [])
  | .setBroadcastReadiness state => (s.setBroadcastReadiness state, [])
  | .setRecordStatus state stems => (s.setRecordStatus state stems, [])
  | .events => ({ s with events := [] }, [])
  | .log line => ({ s with logTail := s.logTail.map fun tail => tail.push line }, [])

/-- The control messages a call releases, from whom, and the state they meet. -/
def batch (s : ServerCore X) : Call → Option (ServerCore X × UInt64 × MemberId × List ControlMsg)
  | .handleDatagram nowMs _ src data _ =>
    match Wire.parse data with
    | .ok (.transport id counter ciphertext) =>
      match s.openTransport nowMs src id counter ciphertext with
      | (t, some (.ok (some msgs))) => some (t, nowMs, id, msgs)
      | _ => none
    | _ => none
  | _ => none

def step (s : ServerCore X) (c : Call) : ServerCore X := (s.call c).1

/-- A core at work: created with a log ring or without, its revocations restored. -/
def start (X : Externals) (cfg : ServerConfig) (logTail : Option LogTail)
    (jtis : List TokenId) : ServerCore X := (new X cfg logTail).restoreRevoked jtis

end ServerCore
end JamStream.Session
