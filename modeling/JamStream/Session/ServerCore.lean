import JamStream.Engine.Engine
import JamStream.Protocol.Transport
import JamStream.Session.Avatar
import JamStream.Session.Limits
import JamStream.Session.LogTail

/-! The server core: its state, and the operations every entry point is made of.
Whatever the code draws from a library is a parameter, and the clock is the
caller's. The one field the source does not have is `refused`, which records what
a discarded send result would have said. -/

namespace JamStream.Session
open Protocol Engine Foundations
open Std (ExtTreeMap)

/-- Everything the core calls that is not in the repository. -/
structure Externals extends Crypto, Formats, Audio

def tickSamples : ℕ := 120
def bcastTicks : ℕ := 8
def personalMixBitrate : UInt32 := 192000
def broadcastBitrate : UInt32 := 128000
def rejectIntervalMs : UInt64 := 1000
def rejectSlots : ℕ := 256
def slotKeyDomain : Bytes := Transport.ascii "jamstream-limiter-slot-v1"
def rejectRatePerSec : UInt32 := 16
def rejectBurst : UInt32 := 16
def initRatePerSec : UInt32 := 32
def initBurst : UInt32 := 64
def initSlotRatePerSec : UInt32 := 8
def initSlotBurst : UInt32 := 24
def cookieRotationMs : UInt64 := 120000
def cookieTriggerRatePerSec : UInt32 := 24
def cookieTriggerBurst : UInt32 := 48
def challengeRatePerSec : UInt32 := 16384
def rejectMinInitBytes : ℕ := 48
def challengeMinInitBytes : ℕ := 64
def avatarFeedHighWater : ℕ := 64
def statsIntervalMs : UInt64 := 1000
def streamStatusIntervalMs : UInt64 := 1000
def respCacheMs : UInt64 := 5000
def rejoinSilenceMs : UInt64 := 2000
def avatarCacheBytes : ℕ := 16 * 1024 * 1024

abbrev Outgoing := List (SocketAddr × Bytes)

/-- A message a link did not take, whose link it was, and what it answered. -/
abbrev Refusal := MemberId × ControlMsg × Error

structure ServerConfig where
  sessionId : SessionId
  serverPrivate : Bytes
  serverPublic : Bytes
  issuerPk : Bytes
  maxMusicians : ℕ
  maxListeners : ℕ
  memberTimeoutMs : UInt64

def ServerConfig.new (sessionId : SessionId) (serverPrivate serverPublic issuerPk : Bytes) :
    ServerConfig :=
  { sessionId, serverPrivate, serverPublic, issuerPk, maxMusicians := Session.maxMusicians
    maxListeners := Session.maxListeners, memberTimeoutMs := defaultMemberTimeoutMs }

def ServerConfig.cap (cfg : ServerConfig) : Role → ℕ
  | .musician => cfg.maxMusicians
  | .listener => cfg.maxListeners

inductive ServerEvent
  | musicianCountChanged (count : ℕ)
  | memberJoined (id : MemberId) (name : String)
  | memberDisconnected (id : MemberId)
  | memberRevoked (id : MemberId)
  | protocolViolation (id : MemberId) (what : String)
  | memberEjected (id : MemberId) (violations : UInt64)
  | tokenRevoked (jti : TokenId)
  | streamCtl (op : StreamOp)
  | recordCtl (op : RecordOp)
deriving DecidableEq

/-- The answer to an init, kept for a byte-identical resend of it. -/
structure RespCache where
  initHash : Digest
  resp : Bytes
  atMs : UInt64

structure Member (X : Externals) where
  role : Role
  name : String
  jti : TokenId
  addr : Option SocketAddr
  session : Option (Protocol.Session X.toCrypto)
  respCache : Option RespCache
  link : ControlLink
  jitter : X.Jitter
  decoder : Option X.Decoder
  encoder : Option X.Encoder
  faders : ExtTreeMap MemberId Fader
  clickEnabled : Bool
  hearSelf : Bool
  opensRefused : UInt64
  connected : Bool
  lastHeardMs : UInt64
  quiet : Bool
  rttMsLast : Option F32
  sendSeq : UInt32
  violations : UInt64
  violationBudget : TokenBucket
  fanoutBudget : TokenBucket
  statsPrev : JitterStats
  levelPeak : X.Sample
  levelRms : X.Sample
  avatar : Option (AvatarHash × UInt32)
  avatarRx : Option AvatarRx
  avatarTx : List AvatarTx

structure ServerCore (X : Externals) where
  cfg : ServerConfig
  members : ExtTreeMap MemberId (Member X)
  revoked : Finset TokenId
  metronome : Metronome
  metronomeEnabled : Bool
  sampleClock : UInt64
  tickCount : UInt64
  limiter : X.Limiter
  decoded : List (MemberId × Stereo X.toAudio)
  bcastAccum : Stereo X.toAudio
  bcastEncoder : Option X.Encoder
  bcastClock : UInt64
  bcastEncodes : UInt64
  bcastSlot : ℕ
  bcastTap : Bool
  bcastFaders : ExtTreeMap MemberId Fader
  audition : Bool
  avatarCache : AvatarCache
  avatarWaiters : ExtTreeMap AvatarHash (List MemberId)
  rejectSeen : List (Option UInt64)
  rejectBudget : TokenBucket
  slotHasher : Bytes
  initSlotBudget : List TokenBucket
  initBudget : TokenBucket
  initReads : UInt64
  cookieTrigger : TokenBucket
  challengeBudget : TokenBucket
  cookieReplyKey : Digest
  challenges : UInt64
  events : List ServerEvent
  lastMusicianCount : ℕ
  lastStatsMs : UInt64
  streamStatus : List DestinationStatus
  lastStreamStatusMs : UInt64
  broadcastReady : Option BroadcastReadiness
  recordStatus : RecordingState
  recordStems : Bool
  rosterEpoch : UInt64
  rosterDirty : Bool
  logTail : Option LogTail
  logBudget : TokenBucket
  refused : List Refusal

variable {X : Externals}

namespace Member

def send (m : Member X) (msg : ControlMsg) : Member X :=
  match m.link.send msg with
  | .ok link => { m with link }
  | .error _ => m

def refusal (m : Member X) (id : MemberId) (msg : ControlMsg) : List Refusal :=
  match m.link.send msg with
  | .ok _ => []
  | .error e => [(id, msg, e)]

/-- Seals one packet, for a member with a transport and an address to send to. -/
def post (m : Member X) (id : MemberId) (plain : Bytes) : Member X × Outgoing :=
  match m.session, m.addr with
  | some session, some addr =>
    let r := session.sealInto id plain
    ({ m with session := some r.1 }, r.2.toList.map fun packet => (addr, packet))
  | _, _ => (m, [])

def postAll (id : MemberId) : List Bytes → Member X → Member X × Outgoing
  | [], m => (m, [])
  | plain :: rest, m =>
    let r := m.post id plain
    let r' := postAll id rest r.1
    (r'.1, r.2 ++ r'.2)

def flush (m : Member X) (id : MemberId) (nowMs : UInt64) : Member X × Outgoing :=
  let r := m.link.poll X.ctlPacket nowMs
  postAll id r.2 { m with link := r.1 }

/-- The connection's own state goes; the seat and what survives a rejoin stay. -/
def disconnect (m : Member X) : Member X :=
  { m with
    connected := false, quiet := false, addr := none, session := none, respCache := none
    avatarRx := none, avatarTx := [] }

def info (m : Member X) (id : MemberId) : MemberInfo :=
  { id, role := m.role, name := m.name, connected := m.connected
    avatarHash := m.avatar.map Prod.fst, quiet := m.quiet }

end Member

namespace ServerCore

/-- What a limiter slot's hash starts from: the slot key, from the private key. -/
def slotHasherOf (X : Externals) (serverPrivate : Bytes) : Bytes :=
  (Codec.array 32).ser (X.blake2s (slotKeyDomain ++ serverPrivate))

def new (X : Externals) (cfg : ServerConfig) (logTail : Option LogTail) : ServerCore X where
  cfg
  members := ∅
  revoked := ∅
  metronome := { bpm := 120, beatsPerBar := 4 }
  metronomeEnabled := false
  sampleClock := 0
  tickCount := 0
  limiter := X.limiterNew
  decoded := []
  bcastAccum := silence X.toAudio (tickSamples * bcastTicks)
  bcastEncoder := none
  bcastClock := 0
  bcastEncodes := 0
  bcastSlot := 0
  bcastTap := false
  bcastFaders := ∅
  audition := false
  avatarCache := .new avatarCacheBytes
  avatarWaiters := ∅
  rejectSeen := List.replicate rejectSlots none
  rejectBudget := .new rejectBurst rejectRatePerSec
  slotHasher := slotHasherOf X cfg.serverPrivate
  initSlotBudget := List.replicate rejectSlots (.new initSlotBurst initSlotRatePerSec)
  initBudget := .new initBurst initRatePerSec
  initReads := 0
  cookieTrigger := .new cookieTriggerBurst cookieTriggerRatePerSec
  challengeBudget := .new challengeRatePerSec challengeRatePerSec
  cookieReplyKey := Transport.cookieReplyKey X.toCrypto cfg.serverPublic
  challenges := 0
  events := []
  lastMusicianCount := 0
  lastStatsMs := 0
  streamStatus := []
  lastStreamStatusMs := 0
  broadcastReady := none
  recordStatus := .idle
  recordStems := false
  rosterEpoch := 0
  rosterDirty := false
  logTail
  logBudget := .new serverLogBurst serverLogPerSec
  refused := []

def isConnected (s : ServerCore X) (id : MemberId) : Bool :=
  s.members[id]?.any Member.connected

def connectedIn (s : ServerCore X) (role : Role) (except : Option MemberId) : ℕ :=
  s.members.toList.countP fun e => except ≠ some e.1 && e.2.connected && e.2.role = role

def musiciansConnected (s : ServerCore X) : ℕ := s.connectedIn .musician none

def update (s : ServerCore X) (id : MemberId) (f : Member X → Member X) : ServerCore X :=
  { s with members := s.members.modify id f }

def emit (s : ServerCore X) (event : ServerEvent) : ServerCore X :=
  { s with events := s.events ++ [event] }

def queue (s : ServerCore X) (id : MemberId) (msg : ControlMsg) : ServerCore X :=
  { s with
    members := s.members.modify id fun m => m.send msg
    refused := s.refused ++ (s.members[id]?.toList.flatMap fun m => m.refusal id msg) }

def each (s : ServerCore X)
    (f : MemberId → Member X → Member X × Outgoing × List Refusal) : ServerCore X × Outgoing :=
  ({ s with
    members := s.members.map fun id m => (f id m).1
    refused := s.refused ++ s.members.toList.flatMap fun e => (f e.1 e.2).2.2 },
   s.members.toList.flatMap fun e => (f e.1 e.2).2.1)

def relay (s : ServerCore X) (msg : ControlMsg) : ServerCore X :=
  (s.each fun id m => if m.connected then (m.send msg, [], m.refusal id msg) else (m, [], [])).1

def queueRoster (s : ServerCore X) : ServerCore X := { s with rosterDirty := true }

def roster (s : ServerCore X) : List MemberInfo := s.members.toList.map fun e => e.2.info e.1

def flushRoster (s : ServerCore X) : ServerCore X :=
  if s.rosterDirty then
    { s with rosterDirty := false, rosterEpoch := s.rosterEpoch + 1 }.relay (.roster s.roster)
  else s

def noteMusicianCount (s : ServerCore X) : ServerCore X :=
  if s.musiciansConnected ≠ s.lastMusicianCount then
    { s with lastMusicianCount := s.musiciansConnected }.emit
      (.musicianCountChanged s.musiciansConnected)
  else s

def disconnectMember (s : ServerCore X) (id : MemberId) : ServerCore X :=
  if s.isConnected id then
    { s.update id Member.disconnect with
      audition := if id = hostMemberId then false else s.audition }
  else s

def violation (s : ServerCore X) (nowMs : UInt64) (id : MemberId) (what : String) :
    ServerCore X :=
  match s.members[id]? with
  | none => s.emit (.protocolViolation id what)
  | some m =>
    let budget := m.violationBudget.take nowMs
    let s := (s.update id fun m => { m with
      violations := m.violations + 1, violationBudget := budget.1 }).emit
        (.protocolViolation id what)
    if budget.2 then s
    else (((s.disconnectMember id).emit
      (.memberEjected id (m.violations + 1))).queueRoster).noteMusicianCount

/-- Spends one fanout token; an empty allowance is a violation. -/
def takeFanout (s : ServerCore X) (nowMs : UInt64) (sender : MemberId) : ServerCore X × Bool :=
  match s.members[sender]? with
  | none => (s, false)
  | some m =>
    let budget := m.fanoutBudget.take nowMs
    let s := s.update sender fun m => { m with fanoutBudget := budget.1 }
    if budget.2 then (s, true) else (s.violation nowMs sender "control rate exceeded", false)

def flushMemberLink (s : ServerCore X) (nowMs : UInt64) (id : MemberId) :
    ServerCore X × Outgoing :=
  match s.members[id]? with
  | none => (s, [])
  | some m =>
    if m.connected then
      (s.update id fun m => (m.flush id nowMs).1, (m.flush id nowMs).2)
    else (s, [])

/-- A single flight with no retry: the member is going away. -/
def farewell (s : ServerCore X) (nowMs : UInt64) (id : MemberId) (reason : String) :
    ServerCore X × Outgoing :=
  if s.isConnected id then (s.queue id (.bye reason)).flushMemberLink nowMs id else (s, [])

def announced (s : ServerCore X) : List AvatarHash :=
  s.members.toList.filterMap fun e => e.2.avatar.map Prod.fst

/-- A full waiter table first drops the hashes nobody announces any more. -/
def noteAvatarWaiter (s : ServerCore X) (hash : AvatarHash) (waiter : MemberId) :
    ServerCore X :=
  let cap := s.cfg.maxMusicians + s.cfg.maxListeners
  let full := cap ≤ s.avatarWaiters.size ∧ ¬s.avatarWaiters.contains hash
  let waiting := if full then s.avatarWaiters.filter fun h _ => s.announced.contains h
    else s.avatarWaiters
  if full ∧ cap ≤ waiting.size then { s with avatarWaiters := waiting }
  else
    let waiters := waiting[hash]?.getD []
    { s with
      avatarWaiters := waiting.insert hash
        (if waiters.contains waiter then waiters else waiters ++ [waiter]) }

/-- Each line costs a token, so the tokens left bound the lines sent. -/
def feedServerLogFrom (nowMs : UInt64) : ℕ → ServerCore X → ServerCore X
  | 0, s => s
  | n + 1, s =>
    match s.members[hostMemberId]?, s.logTail.bind LogTail.next with
    | some host, some (tail, line) =>
      if host.link.pendingLen < serverLogHighWater then
        let budget := s.logBudget.take nowMs
        if budget.2 then
          feedServerLogFrom nowMs n ({ s with
            logBudget := budget.1, logTail := some tail.clearDropped }.queue
              hostMemberId (.serverLog line))
        else { s with logBudget := budget.1, logTail := some tail }
      else s
    | _, _ => s

def feedServerLog (s : ServerCore X) (nowMs : UInt64) : ServerCore X :=
  if s.isConnected hostMemberId then
    feedServerLogFrom nowMs ((s.logBudget.refill nowMs).tokens.toNat + 1) s
  else s

end ServerCore
end JamStream.Session
