import JamStream.Session.ServerCore

/-! Admission: the limiters in front of the handshake, the cookie round trip, the
rejects, and the path from an init to a seat. -/

namespace JamStream.Session
open Protocol Engine Foundations
variable {X : Externals}

def cookieEpoch (nowMs : UInt64) : UInt64 := nowMs / cookieRotationMs

/-- A musician's own encoder and decoder; a listener has neither. -/
def mediaFor (X : Externals) : Role → Option (Option X.Encoder × Option X.Decoder)
  | .musician => (X.encoderNew .stereo .ms2_5 personalMixBitrate).bind fun encoder =>
      (X.decoderNew .stereo .ms2_5).map fun decoder => (some encoder, some decoder)
  | .listener => some (none, none)

def nameOf (token : Token) : String :=
  (token.nameHint.filter fun name => name.utf8ByteSize ≤ maxNameLen).getD
    ("member " ++ toString token.memberId.toNat)

/-- A fresh connection. What follows the member across a rejoin is their mixer
state, their avatar and their violation record. -/
def Member.join (prev : Option (Member X)) (nowMs : UInt64) (src : SocketAddr) (token : Token)
    (session : Protocol.Session X.toCrypto) (cache : RespCache)
    (encoder : Option X.Encoder) (decoder : Option X.Decoder) : Member X where
  role := token.role
  name := nameOf token
  jti := token.jti
  addr := some src
  session := some session
  respCache := some cache
  link := .new
  jitter := X.jitterNew
  decoder
  encoder
  faders := prev.elim ∅ Member.faders
  clickEnabled := prev.elim true Member.clickEnabled
  hearSelf := prev.elim false Member.hearSelf
  opensRefused := 0
  connected := true
  lastHeardMs := nowMs
  quiet := false
  rttMsLast := none
  sendSeq := 0
  violations := prev.elim 0 Member.violations
  violationBudget := prev.elim (.new violationBurst violationRefillPerSec) Member.violationBudget
  fanoutBudget := .new fanoutBurst fanoutRefillPerSec
  statsPrev := .zero
  levelPeak := X.zero
  levelRms := X.zero
  avatar := prev.bind Member.avatar
  avatarRx := none
  avatarTx := []

namespace ServerCore

def limiterSlot (s : ServerCore X) (ip : IpAddr) : ℕ :=
  Wire.leNat 8 ((Codec.array 32).ser (X.blake2s (s.slotHasher ++ ip.network))) &&& (rejectSlots - 1)

/-- One reject for a slot in each interval, and so many a second altogether. A
refusal by the shared budget leaves the slot's turn unspent. -/
def takeRejectTurn (s : ServerCore X) (nowMs : UInt64) (src : SocketAddr) : ServerCore X × Bool :=
  let slot := s.limiterSlot src.ip
  if (s.rejectSeen.getD slot none).any fun t => saturatingSub nowMs t < rejectIntervalMs then
    (s, false)
  else
    let budget := s.rejectBudget.take nowMs
    if budget.2 then
      ({ s with rejectBudget := budget.1, rejectSeen := s.rejectSeen.set slot (some nowMs) }, true)
    else ({ s with rejectBudget := budget.1 }, false)

def versionReject (s : ServerCore X) (nowMs : UInt64) (src : SocketAddr) (theirs : UInt16)
    (noise initPacket : Bytes) : ServerCore X × Outgoing :=
  if initPacket.length < rejectMinInitBytes then (s, [])
  else
    let r := s.takeRejectTurn nowMs src
    if r.2 then
      (r.1, ((Transport.rejectKeyForInit X.toCrypto s.cfg.serverPrivate s.cfg.sessionId theirs
        noise).map fun key =>
          (src, Wire.buildVersionReject X.toCrypto key protocolVersion theirs initPacket)).toList)
    else (r.1, [])

def capacityReject (s : ServerCore X) (nowMs : UInt64) (src : SocketAddr)
    (responder : Responder X.toCrypto) (initPacket : Bytes) : ServerCore X × Outgoing :=
  let r := s.takeRejectTurn nowMs src
  if r.2 then
    (r.1, ((responder.rejectKey s.cfg.serverPrivate).map fun key =>
      (src, Wire.buildCapacityReject X.toCrypto key initPacket)).toList)
  else (r.1, [])

/-- The network's share goes first, and neither is charged when the other refuses. -/
def initBudgetTake (s : ServerCore X) (nowMs : UInt64) (src : SocketAddr) :
    ServerCore X × Bool :=
  let slot := s.limiterSlot src.ip
  let share := (s.initSlotBudget.getD slot (.new initSlotBurst initSlotRatePerSec)).available nowMs
  if !share.2 then ({ s with initSlotBudget := s.initSlotBudget.set slot share.1 }, false)
  else
    let whole := s.initBudget.available nowMs
    if !whole.2 then
      ({ s with initSlotBudget := s.initSlotBudget.set slot share.1, initBudget := whole.1 }, false)
    else
      let share' := share.1.take nowMs
      let whole' := if share'.2 then whole.1.take nowMs else (whole.1, false)
      ({ s with initSlotBudget := s.initSlotBudget.set slot share'.1, initBudget := whole'.1 },
        whole'.2)

def cookieRequired (s : ServerCore X) (nowMs : UInt64) : ServerCore X × Bool :=
  let trigger := s.cookieTrigger.take nowMs
  ({ s with cookieTrigger := trigger.1 }, !trigger.2)

def cookieChallenge (s : ServerCore X) (nowMs : UInt64) (src : SocketAddr) (initPacket : Bytes) :
    ServerCore X × Outgoing :=
  if initPacket.length < challengeMinInitBytes then (s, [])
  else
    let budget := s.challengeBudget.take nowMs
    if budget.2 then
      ({ s with challengeBudget := budget.1, challenges := s.challenges + 1 },
        [(src, Wire.buildCookieChallenge X.toCrypto s.cookieReplyKey
          (Transport.cookieKey X.toCrypto s.cfg.serverPrivate (cookieEpoch nowMs)) src.ip
          initPacket)])
    else ({ s with challengeBudget := budget.1 }, [])

/-- The secret of this epoch or of the one before it. -/
def cookieValid (s : ServerCore X) (nowMs : UInt64) (src : SocketAddr) (cookie : Bytes) : Bool :=
  [cookieEpoch nowMs, saturatingSub (cookieEpoch nowMs) 1].any fun epoch =>
    Wire.cookieMatches X.toCrypto (Transport.cookieKey X.toCrypto s.cfg.serverPrivate epoch) src.ip
      cookie

def violationAvailable (s : ServerCore X) (nowMs : UInt64) (id : MemberId) :
    ServerCore X × Bool :=
  match s.members[id]? with
  | none => (s, true)
  | some m =>
    let budget := m.violationBudget.available nowMs
    (s.update id fun m => { m with violationBudget := budget.1 }, budget.2)

/-- What an init for a live member draws: the cached answer when it is the same
one again, silence while they are being heard. Nothing stands in the way otherwise. -/
def liveAnswer (s : ServerCore X) (nowMs : UInt64) (src : SocketAddr) (id : MemberId)
    (initHash : Digest) : Option Outgoing :=
  match s.members[id]? with
  | none => none
  | some m =>
    if m.connected then
      match m.respCache.filter fun cache =>
          saturatingSub nowMs cache.atMs ≤ respCacheMs && cache.initHash = initHash with
      | some cache => some [(src, cache.resp)]
      | none => if saturatingSub nowMs m.lastHeardMs ≤ rejoinSilenceMs then some [] else none
    else none

/-- The one encoder all listeners share is built with the first of them. -/
def ensureBcastEncoder (s : ServerCore X) (role : Role) : Option (ServerCore X) :=
  if role = .listener ∧ s.bcastEncoder.isNone then
    (X.encoderNew .stereo .ms20 broadcastBitrate).map fun encoder =>
      { s with bcastEncoder := some encoder }
  else some s

/-- A newcomer is told at once what everyone else already knows. -/
def greet (s : ServerCore X) (id : MemberId) : ServerCore X :=
  let s := if s.streamStatus.isEmpty then s else s.queue id (.streamStatus s.streamStatus)
  let s :=
    match s.broadcastReady with
    | none => s
    | some state => s.queue id (.broadcastReadiness state)
  if s.recordStatus = .idle then s else s.queue id (.recordStatus s.recordStatus s.recordStems)

/-- Puts a member in their seat. Audition never survives a join. -/
def seat (s : ServerCore X) (id : MemberId) (m : Member X) : ServerCore X :=
  { s with
    audition := if id = hostMemberId then false else s.audition
    members := s.members.insert id m }

def welcomed (s : ServerCore X) (nowMs : UInt64) (src : SocketAddr) (token : Token)
    (session : Protocol.Session X.toCrypto) (cache : RespCache)
    (media : Option X.Encoder × Option X.Decoder) : ServerCore X :=
  let id := token.memberId
  let m := Member.join s.members[id]? nowMs src token session cache media.1 media.2
  ((((s.seat id m).emit (.memberJoined id m.name)).queueRoster).greet id).noteMusicianCount

/-- A seat for a verified token, once its role has room. -/
def takeSeat (s : ServerCore X) (nowMs : UInt64) (src : SocketAddr) (token : Token)
    (responder : Responder X.toCrypto) (initHash : Digest) (ephemeral : Bytes) :
    ServerCore X × Outgoing :=
  match s.ensureBcastEncoder token.role with
  | none => (s, [])
  | some s =>
    match mediaFor X token.role,
      responder.respond X.toFormats { memberId := token.memberId, sampleClock := s.sampleClock }
        ephemeral with
    | some media, .ok (session, resp) =>
      (s.welcomed nowMs src token session { initHash, resp, atMs := nowMs } media, [(src, resp)])
    | _, _ => (s, [])

def admitToken (s : ServerCore X) (nowMs : UInt64) (src : SocketAddr) (noise ephemeral : Bytes)
    (token : Token) (responder : Responder X.toCrypto) : ServerCore X × Outgoing :=
  if token.jti ∈ s.revoked then (s, [])
  else
    let r := s.violationAvailable nowMs token.memberId
    if !r.2 then (r.1, [])
    else
      match r.1.liveAnswer nowMs src token.memberId (X.blake2s noise) with
      | some out => (r.1, out)
      | none =>
        if s.cfg.cap token.role ≤ r.1.connectedIn token.role (some token.memberId) then
          r.1.capacityReject nowMs src responder (Wire.buildHandshakeInit protocolVersion noise)
        else r.1.takeSeat nowMs src token responder (X.blake2s noise) ephemeral

/-- Everything past the budget costs asymmetric cryptography. Until the token has
verified, every refusal is silent. -/
def admitInit (s : ServerCore X) (nowMs nowUnix : UInt64) (src : SocketAddr)
    (noise ephemeral : Bytes) : ServerCore X × Outgoing :=
  let r := s.initBudgetTake nowMs src
  if !r.2 then (r.1, [])
  else
    let s := { r.1 with initReads := r.1.initReads + 1 }
    match Responder.readInit X.toFormats s.cfg.serverPrivate s.cfg.sessionId protocolVersion
        noise with
    | .error _ => (s, [])
    | .ok (hp, responder) =>
      match verifyToken X.toCrypto X.toFormats s.cfg.issuerPk s.cfg.sessionId s.cfg.serverPublic
          hp.token hp.signature nowUnix with
      | .error _ => (s, [])
      | .ok () => s.admitToken nowMs src noise ephemeral hp.token responder

end ServerCore
end JamStream.Session
