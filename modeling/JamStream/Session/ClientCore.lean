import JamStream.Session.Control

/-! The client core's side of the control link: joining, the roster, and pictures in
and out. Packets come in opened and go out unsealed. Two fields the source does not have
record, since the link was new, the messages it has taken and the chunks the cursors of
outbound trains have passed. -/

namespace JamStream.Session
open Protocol Engine Foundations
open Std (ExtTreeMap)

def connectionTimeoutMs : UInt64 := 10000
def pingIntervalMs : UInt64 := 1000
def clientCacheBytes : ℕ := 8 * 1024 * 1024

inductive ClientState
  | connecting
  | joined
  | rejected (ours theirs : UInt16)
  | ejected (reason : String)
  | timedOut
deriving DecidableEq

inductive ClientEvent
  | joined
  | roster (members : List MemberInfo)
  | chat (sender : MemberId) (text : String)
  | metronomeChanged (bpm : UInt16) (beatsPerBar : UInt8) (enabled : Bool)
  | rttSample (ms : F32)
  | broadcastMixChanged (target : MemberId) (gainDb pan : F32) (muted : Bool)
  | streamStatus (destinations : List DestinationStatus)
  | recordStatus (state : RecordingState) (stems : Bool)
  | broadcastReadiness (state : BroadcastReadiness)
  /-- Once for each member and picture. -/
  | avatarReady (member : MemberId) (hash : AvatarHash)
  | ejected (reason : String)
  | rejected (ours theirs : UInt16)
  | sessionFull
  | timedOut
deriving DecidableEq

inductive SessionError
  | protocol (e : Error)
  | invalidParam (what : String)
  | notJoined
deriving DecidableEq

/-- What a member can ask of the server besides a picture and a name. -/
inductive Command
  | sendChat (text : String)
  | setFader (target : MemberId) (gainDb pan : F32) (muted : Bool)
  | setBroadcastFader (target : MemberId) (gainDb pan : F32) (muted : Bool)
  | setBroadcastAudition (enabled : Bool)
  | streamCtl (op : StreamOp)
  | recordCtl (op : RecordOp)
  | setMetronome (bpm : UInt16) (beatsPerBar : UInt8) (enabled : Bool)
  | setClick (enabled : Bool)
  | setHearSelf (enabled : Bool)
  | revoke (jti : TokenId)
  | leave (reason : String)
deriving DecidableEq

namespace Command

def checkFader (gainDb pan : F32) : Except SessionError Unit :=
  if !gainDb.isFinite ∨ clampGain gainDb ≠ gainDb then
    .error (.invalidParam "gain_db out of range")
  else if !pan.isFinite ∨ clampPan pan ≠ pan then .error (.invalidParam "pan out of range")
  else .ok ()

def check : Command → Except SessionError Unit
  | .setFader _ gainDb pan _ | .setBroadcastFader _ gainDb pan _ => checkFader gainDb pan
  | .setMetronome bpm beatsPerBar _ =>
    if bpm < 1 ∨ 400 < bpm then .error (.invalidParam "bpm out of range")
    else if beatsPerBar < 1 ∨ 16 < beatsPerBar then
      .error (.invalidParam "beats_per_bar out of range")
    else .ok ()
  | _ => .ok ()

def msg (sender : MemberId) : Command → ControlMsg
  | .sendChat text => .chat sender text
  | .setFader target gainDb pan muted => .mixerSet target gainDb pan muted
  | .setBroadcastFader target gainDb pan muted => .broadcastMixSet target gainDb pan muted
  | .setBroadcastAudition enabled => .broadcastAudition enabled
  | .streamCtl op => .streamCtl op
  | .recordCtl op => .recordCtl op
  | .setMetronome bpm beatsPerBar enabled => .metronomeSet bpm beatsPerBar enabled
  | .setClick enabled => .clickEnable enabled
  | .setHearSelf enabled => .hearSelf enabled
  | .revoke jti => .revoke jti
  | .leave reason => .bye reason

end Command

structure ClientCore where
  state : ClientState
  sessionFull : Bool
  /-- Who the welcome says this is. -/
  memberId : Option MemberId
  link : ControlLink
  uplinkReport : Option (F32 × UInt16 × F32)
  ownAvatar : Option (AvatarHash × UInt32)
  ownName : Option String
  avatarCache : AvatarCache
  avatarRequested : Finset AvatarHash
  avatarRx : Option AvatarRx
  avatarTx : List AvatarTx
  roster : List MemberInfo
  avatarAnnounced : ExtTreeMap MemberId AvatarHash
  events : List ClientEvent
  lastServerMs : UInt64
  lastPingMs : UInt64
  rttMsLast : Option F32
  pingNonce : UInt32
  taken : List ControlMsg
  passed : List ControlMsg

namespace ClientCore

def connect (nowMs : UInt64) : ClientCore where
  state := .connecting
  sessionFull := false
  memberId := none
  link := .new
  uplinkReport := none
  ownAvatar := none
  ownName := none
  avatarCache := .new clientCacheBytes
  avatarRequested := ∅
  avatarRx := none
  avatarTx := []
  roster := []
  avatarAnnounced := ∅
  events := []
  lastServerMs := nowMs
  lastPingMs := nowMs
  rttMsLast := none
  pingNonce := 0
  taken := []
  passed := []

/-- Transfers belong to a connection; the cache and the member's own picture and name
survive it. -/
def reconnect (c : ClientCore) (nowMs : UInt64) : ClientCore :=
  { c with
    state := .connecting, sessionFull := false, memberId := none, link := .new
    uplinkReport := none, avatarRequested := ∅, avatarRx := none, avatarTx := []
    roster := [], avatarAnnounced := ∅, lastServerMs := nowMs, taken := [], passed := [] }

def emit (c : ClientCore) (event : ClientEvent) : ClientCore :=
  { c with events := c.events ++ [event] }

def offer (c : ClientCore) (msg : ControlMsg) : ClientCore :=
  match c.link.send msg with
  | .ok link => { c with link, taken := c.taken ++ [msg] }
  | .error _ => c

def sent (c : ClientCore) (msg : ControlMsg) : Except SessionError Unit :=
  match c.link.send msg with
  | .ok _ => .ok ()
  | .error e => .error (.protocol e)

def handshakeResp (c : ClientCore) (nowMs : UInt64) (id : MemberId) : ClientCore :=
  match c.state with
  | .connecting | .rejected _ _ =>
    let c := { c with
      memberId := some id, state := .joined, sessionFull := false
      lastServerMs := nowMs, lastPingMs := nowMs }.emit .joined
    let c := c.ownAvatar.elim c fun own => c.offer (.setAvatar own.1 own.2)
    c.ownName.elim c fun name => c.offer (.setName name)
  | _ => c

/-- A version reject that verified; the wire's fields are the server's. -/
def versionReject (c : ClientCore) (ours theirs : UInt16) : ClientCore :=
  if c.state = .connecting then
    { c with state := .rejected theirs ours }.emit (.rejected theirs ours)
  else c

/-- A capacity reject that verified, acted on once for each attempt. -/
def capacityReject (c : ClientCore) : ClientCore :=
  if !c.sessionFull ∧ c.state = .connecting then { c with sessionFull := true }.emit .sessionFull
  else c

/-- What eviction must never remove: what the roster shows, and one's own. -/
def avatarPins (c : ClientCore) : List AvatarHash :=
  c.roster.filterMap MemberInfo.avatarHash ++ (c.ownAvatar.map Prod.fst).toList

def announce (c : ClientCore) (member : MemberId) (hash : AvatarHash) : ClientCore :=
  if c.avatarAnnounced[member]? = some hash then c
  else { c with avatarAnnounced := c.avatarAnnounced.insert member hash }.emit
    (.avatarReady member hash)

/-- One entry of a roster: surfaced when its picture is here, asked for once when it
is not. -/
def syncAvatar (c : ClientCore) (mi : MemberInfo) : ClientCore :=
  match mi.avatarHash with
  | none => { c with avatarAnnounced := c.avatarAnnounced.erase mi.id }
  | some hash =>
    if c.avatarCache.contains hash then
      { c with avatarCache := c.avatarCache.touch hash }.announce mi.id hash
    else if hash ∈ c.avatarRequested then c
    else { c with avatarRequested := insert hash c.avatarRequested }.offer (.avatarRequest hash)

def syncAvatars (c : ClientCore) (roster : List MemberInfo) : ClientCore :=
  roster.foldl syncAvatar { c with
    avatarAnnounced := c.avatarAnnounced.filter fun id _ => roster.any fun m => m.id = id }

/-- One chunk from the server. What does not fit is dropped: a stale train racing a
replacement is expected. -/
def handleAvatarChunk (X : Externals) (c : ClientCore) (hash : AvatarHash)
    (index total : UInt16) (data : Bytes) : ClientCore :=
  let rx := if index = 0 ∧ hash ∈ c.avatarRequested then some (AvatarRx.new hash none)
    else c.avatarRx
  match rx.filter fun rx => rx.hash = hash with
  | none => { c with avatarRx := rx }
  | some open' =>
    match open'.push X.blake2s index total data with
    | (open', .ok .more) => { c with avatarRx := some open' }
    | (_, .error _) => { c with avatarRx := none }
    | (_, .ok (.done bytes)) =>
      let c := { c with
        avatarRx := none
        avatarRequested := c.avatarRequested.erase hash
        avatarCache := c.avatarCache.insert hash bytes c.avatarPins }
      (c.roster.filter fun m => m.avatarHash = some hash).foldl (fun c m => c.announce m.id hash) c

/-- The server wants the member's own bytes. Anything but the current picture is a
request from before a replacement. -/
def avatarRequest (c : ClientCore) (hash : AvatarHash) : ClientCore :=
  if (c.ownAvatar.any fun own => own.1 = hash) && !c.avatarTx.any fun tx => tx.hash = hash then
    { c with avatarTx := c.avatarTx ++ [AvatarTx.new hash] }
  else c

def handleControl (X : Externals) (c : ClientCore) (nowMs : UInt64) : ControlMsg → ClientCore
  | .roster members => { c.syncAvatars members with roster := members }.emit (.roster members)
  | .chat sender text => c.emit (.chat sender text)
  | .metronomeSet bpm beatsPerBar enabled => c.emit (.metronomeChanged bpm beatsPerBar enabled)
  | .ping nonce sentMs => c.offer (.pong nonce sentMs)
  | .pong _ sentMs =>
    { c with rttMsLast := some (X.toF32 (saturatingSub nowMs sentMs)) }.emit
      (.rttSample (X.toF32 (saturatingSub nowMs sentMs)))
  | .stats loss depth recovered => { c with uplinkReport := some (loss, depth, recovered) }
  | .bye reason => { c with state := .ejected reason }.emit (.ejected reason)
  | .broadcastMixSet target gainDb pan muted =>
    c.emit (.broadcastMixChanged target gainDb pan muted)
  | .avatarRequest hash => c.avatarRequest hash
  | .avatarChunk hash index total data => c.handleAvatarChunk X hash index total data
  | .streamStatus destinations => c.emit (.streamStatus destinations)
  | .recordStatus state stems => c.emit (.recordStatus state stems)
  | .broadcastReadiness state => c.emit (.broadcastReadiness state)
  | _ => c

/-- Polls the link; what it has to say goes out once there is a session to seal it. -/
def flushLink (X : Externals) (c : ClientCore) (nowMs : UInt64) : ClientCore × List Bytes :=
  match c.memberId with
  | none => (c, [])
  | some _ => ({ c with link := (c.link.poll X.ctlPacket nowMs).1 }, (c.link.poll X.ctlPacket nowMs).2)

def handlePlain (X : Externals) (c : ClientCore) (nowMs : UInt64) (plain : Bytes) :
    ClientCore × List Bytes :=
  match c.memberId with
  | none => (c, [])
  | some _ =>
    let r := c.link.receive X.ctlPacket plain
    let c := { c with lastServerMs := nowMs, link := r.1 }
    ((r.2.toOption.getD []).foldl (fun c msg => c.handleControl X nowMs msg) c).flushLink X nowMs

def handleMedia (c : ClientCore) (nowMs : UInt64) : ClientCore :=
  if c.memberId.isSome then { c with lastServerMs := nowMs } else c

/-- Feeds the train at the head into the link, two chunks a poll. The cursor has moved
by the time the link is asked, and what it says is not looked at. -/
def feedAvatar : ℕ → ℕ → ClientCore → ClientCore
  | 0, _, c => c
  | n + 1, fed, c =>
    if fed < avatarChunksPerPoll then
      match c.avatarTx with
      | [] => c
      | tx :: rest =>
        match (c.avatarCache.get tx.hash).map tx.nextChunk with
        | some (tx', some chunk) =>
          feedAvatar n (fed + 1)
            ({ c with avatarTx := tx' :: rest, passed := c.passed ++ [chunk] }.offer chunk)
        | _ => feedAvatar n fed { c with avatarTx := rest }
    else c

def pingDue (c : ClientCore) (nowMs : UInt64) : Bool :=
  pingIntervalMs ≤ saturatingSub nowMs c.lastPingMs

def ping (c : ClientCore) (nowMs : UInt64) : ClientCore :=
  if c.pingDue nowMs then
    { c with lastPingMs := nowMs, pingNonce := c.pingNonce + 1 }.offer
      (.ping (c.pingNonce + 1) nowMs)
  else c

def isLost (c : ClientCore) (nowMs : UInt64) : Bool :=
  connectionTimeoutMs ≤ saturatingSub nowMs c.lastServerMs || c.link.isDead

def poll (X : Externals) (c : ClientCore) (nowMs : UInt64) : ClientCore × List Bytes :=
  match c.state with
  | .connecting =>
    if !c.sessionFull ∧ connectionTimeoutMs ≤ saturatingSub nowMs c.lastServerMs then
      ({ c with state := .timedOut }.emit .timedOut, [])
    else (c, [])
  | .joined =>
    if c.isLost nowMs then ({ c with state := .timedOut }.emit .timedOut, [])
    else
      let c := c.ping nowMs
      (feedAvatar (avatarChunksPerPoll + c.avatarTx.length) 0 c).flushLink X nowMs
  | _ => (c, [])

/-- Sets or replaces the member's picture, hashed and kept before it is announced. Trains
of a replaced one are dropped. -/
def setAvatar (X : Externals) (c : ClientCore) (bytes : Bytes) :
    ClientCore × Except SessionError AvatarHash :=
  if bytes.isEmpty ∨ maxAvatarBytes < bytes.length then
    (c, .error (.invalidParam "avatar size out of range"))
  else
    let hash := X.blake2s bytes
    let c := { c with
      avatarCache := c.avatarCache.insert hash bytes (hash :: c.avatarPins)
      ownAvatar := some (hash, UInt32.ofNat bytes.length)
      avatarTx := c.avatarTx.filter fun tx => tx.hash = hash }
    if c.state = .joined then
      let msg := .setAvatar hash (UInt32.ofNat bytes.length)
      (c.offer msg, (c.sent msg).map fun _ => hash)
    else (c, .ok hash)

/-- Sets the member's name, announced on every join from here on. -/
def setName (c : ClientCore) (name : String) : ClientCore × Except SessionError Unit :=
  let name := trim name
  if name.isEmpty then (c, .error (.invalidParam "name is empty"))
  else if maxNameLen < name.utf8ByteSize then (c, .error (.invalidParam "name is too long"))
  else
    let c := { c with ownName := some name }
    if c.state = .joined then (c.offer (.setName name), c.sent (.setName name)) else (c, .ok ())

def command (c : ClientCore) (cmd : Command) : ClientCore × Except SessionError Unit :=
  match c.state, c.memberId with
  | .joined, some id =>
    match cmd.check with
    | .error e => (c, .error e)
    | .ok () => (c.offer (cmd.msg id), c.sent (cmd.msg id))
  | _, _ => (c, .error .notJoined)

end ClientCore
end JamStream.Session
