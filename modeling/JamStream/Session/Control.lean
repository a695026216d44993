import JamStream.Session.ServerCore

/-! What a member's control messages do. The sender is the authenticated one
throughout; a member id inside a message only ever names a target. -/

namespace JamStream.Session
open Protocol Engine Foundations
open Std (ExtTreeMap)
variable {X : Externals}

def isWhitespace (c : Char) : Bool :=
  (0x09 ≤ c.toNat && c.toNat ≤ 0x0D) || (0x2000 ≤ c.toNat && c.toNat ≤ 0x200A) ||
    [0x20, 0x85, 0xA0, 0x1680, 0x2028, 0x2029, 0x202F, 0x205F, 0x3000].contains c.toNat

def trim (s : String) : String :=
  String.ofList (((s.toList.dropWhile isWhitespace).reverse.dropWhile isWhitespace).reverse)

def clampGain (gainDb : F32) : F32 := gainDb.clamp ⟨0xC2C00000⟩ ⟨0x41C00000⟩

def clampPan (pan : F32) : F32 := pan.clamp ⟨0xBF800000⟩ ⟨0x3F800000⟩

/-- One chunk into a member's reassembly, which only survives an incomplete train. -/
def takeChunk (X : Externals) (rx : Option AvatarRx) (hash : AvatarHash) (index total : UInt16)
    (data : Bytes) : Option AvatarRx × Except String RxStep :=
  match rx with
  | none => (none, .error "unsolicited avatar chunk")
  | some rx =>
    if rx.hash = hash then
      let r := rx.push X.blake2s index total data
      match r.2 with
      | .ok .more => (some r.1, .ok .more)
      | step => (none, step)
    else (none, .error "avatar chunk for wrong hash")

namespace ServerCore

def setFader (s : ServerCore X) (id target : MemberId) (fader : Fader) : ServerCore X :=
  s.update id fun m => { m with faders := m.faders.insert target fader }

def startTrain (s : ServerCore X) (id : MemberId) (hash : AvatarHash) : ServerCore X :=
  s.update id fun m => { m with avatarTx := m.avatarTx ++ [AvatarTx.new hash] }

def pullAvatar (s : ServerCore X) (owner : MemberId) (hash : AvatarHash) (len : UInt32) :
    ServerCore X :=
  (s.update owner fun m => { m with avatarRx := some (AvatarRx.new hash (some len)) }).queue
    owner (.avatarRequest hash)

def touchAvatar (s : ServerCore X) (hash : AvatarHash) : ServerCore X :=
  { s with avatarCache := s.avatarCache.touch hash }

def unseat (s : ServerCore X) (id : MemberId) : ServerCore X :=
  { s with
    audition := if id = hostMemberId then false else s.audition
    members := s.members.erase id }

/-- Revocation is by token, and the first member holding it loses the seat. -/
def revoke (s : ServerCore X) (nowMs : UInt64) (jti : TokenId) : ServerCore X × Outgoing :=
  let s := if jti ∈ s.revoked then s
    else { s with revoked := insert jti s.revoked }.emit (.tokenRevoked jti)
  match s.members.toList.find? fun e => e.2.jti = jti with
  | none => (s, [])
  | some (id, _) =>
    let r := s.farewell nowMs id "invite revoked"
    ((((r.1.unseat id).emit (.memberRevoked id)).queueRoster).noteMusicianCount, r.2)

def bye (s : ServerCore X) (sender : MemberId) : ServerCore X :=
  if s.isConnected sender then
    (((s.disconnectMember sender).emit (.memberDisconnected sender)).queueRoster).noteMusicianCount
  else s

/-- An accepted announcement. Bytes at hand end any upload; otherwise they are
pulled, unless this very upload is already running. -/
def announceAvatar (s : ServerCore X) (sender : MemberId) (hash : AvatarHash) (len : UInt32)
    (unchanged : Bool) : ServerCore X :=
  match s.members[sender]? with
  | none => if s.avatarCache.contains hash then s.touchAvatar hash else s
  | some m =>
    let t := s.update sender fun m => { m with avatar := some (hash, len) }
    let t :=
      if s.avatarCache.contains hash then
        (t.touchAvatar hash).update sender fun m => { m with avatarRx := none }
      else if unchanged && m.avatarRx.any fun rx => rx.hash = hash then t
      else t.pullAvatar sender hash len
    if unchanged then t else t.queueRoster

def setAvatar (s : ServerCore X) (nowMs : UInt64) (sender : MemberId) (hash : AvatarHash)
    (len : UInt32) : ServerCore X :=
  if len = 0 ∨ maxAvatarBytes < len.toNat then
    s.violation nowMs sender "avatar length out of range"
  else if s.members[sender]?.any fun m => m.avatar = some (hash, len) then
    s.announceAvatar sender hash len true
  else
    let r := s.takeFanout nowMs sender
    if r.2 then r.1.announceAvatar sender hash len false else r.1

/-- A verified upload is stored, and everyone who asked for it and is still here
is served. -/
def serveAvatar (s : ServerCore X) (hash : AvatarHash) (bytes : Bytes) : ServerCore X :=
  (s.avatarWaiters[hash]?.getD []).foldl
    (fun s id => if s.isConnected id then s.startTrain id hash else s)
    { s with
      avatarCache := s.avatarCache.insert hash bytes s.announced
      avatarWaiters := s.avatarWaiters.erase hash }

def avatarChunk (s : ServerCore X) (nowMs : UInt64) (sender : MemberId) (hash : AvatarHash)
    (index total : UInt16) (data : Bytes) : ServerCore X :=
  match s.members[sender]? with
  | none => s
  | some m =>
    let r := takeChunk X m.avatarRx hash index total data
    let s := s.update sender fun m => { m with avatarRx := r.1 }
    match r.2 with
    | .ok .more => s
    | .ok (.done bytes) => s.serveAvatar hash bytes
    | .error what => s.violation nowMs sender what

def avatarOwner (s : ServerCore X) (hash : AvatarHash) : Option (MemberId × UInt32) :=
  s.members.toList.findSome? fun e =>
    e.2.avatar.bind fun a => if a.1 = hash then some (e.1, a.2) else none

/-- Not metered. The owner is nudged when no upload of theirs is running. -/
def avatarRequest (s : ServerCore X) (sender : MemberId) (hash : AvatarHash) : ServerCore X :=
  if s.avatarCache.contains hash then
    let t := s.touchAvatar hash
    if s.members[sender]?.any fun m => !m.avatarTx.any fun tx => tx.hash = hash then
      t.startTrain sender hash
    else t
  else
    match s.avatarOwner hash with
    | none => s
    | some (owner, len) =>
      let t := s.noteAvatarWaiter hash sender
      if s.members[owner]?.any fun o => o.connected && o.avatarRx.isNone then
        t.pullAvatar owner hash len
      else t

def setName (s : ServerCore X) (sender : MemberId) (name : String) : ServerCore X :=
  if (trim name).isEmpty then s
  else if s.members[sender]?.any fun m => m.name ≠ trim name then
    (s.update sender fun m => { m with name := trim name }).queueRoster
  else s

def hearSelf (s : ServerCore X) (nowMs : UInt64) (sender : MemberId) (enabled : Bool) :
    ServerCore X :=
  match s.members[sender]? with
  | none => s
  | some m =>
    if m.role ≠ .musician then s.violation nowMs sender "hear self by listener"
    else s.update sender fun m => { m with hearSelf := enabled }

def hostOnly (s : ServerCore X) (nowMs : UInt64) (sender : MemberId) (what : String)
    (accept : ServerCore X) : ServerCore X :=
  if sender ≠ hostMemberId then s.violation nowMs sender what else accept

def broadcastMixSet (s : ServerCore X) (nowMs : UInt64) (sender target : MemberId)
    (gainDb pan : F32) (muted : Bool) : ServerCore X :=
  s.hostOnly nowMs sender "broadcast mix set by non-host"
    (if !gainDb.isFinite || !pan.isFinite then s.violation nowMs sender "non-finite fader"
    else { s with
      bcastFaders := s.bcastFaders.insert target
        { gainDb := clampGain gainDb, pan := clampPan pan, muted } }.relay
      (.broadcastMixSet target (clampGain gainDb) (clampPan pan) muted))

/-- The operation goes to whatever drives the core, and nothing here keeps it. -/
def streamCtl (s : ServerCore X) (nowMs : UInt64) (sender : MemberId) (op : StreamOp) :
    ServerCore X :=
  s.hostOnly nowMs sender "stream control by non-host"
    (match op with
    | .addDestination _ _ key =>
      if key.isEmpty ∨ maxStreamKeyLen < key.utf8ByteSize then
        s.violation nowMs sender "stream key out of range"
      else s.emit (.streamCtl op)
    | _ => s.emit (.streamCtl op))

def handleControl (s : ServerCore X) (nowMs : UInt64) (sender : MemberId) :
    ControlMsg → ServerCore X × Outgoing
  | .chat _ text =>
    let r := s.takeFanout nowMs sender
    (if r.2 then r.1.relay (.chat sender text) else r.1, [])
  | .mixerSet target gainDb pan muted =>
    (if !gainDb.isFinite || !pan.isFinite then s.violation nowMs sender "non-finite fader"
    else s.setFader sender target { gainDb := clampGain gainDb, pan := clampPan pan, muted }, [])
  | .metronomeSet bpm beatsPerBar enabled =>
    (s.hostOnly nowMs sender "metronome set by non-host"
      ({ s with metronome := { bpm, beatsPerBar }, metronomeEnabled := enabled }.relay
        (.metronomeSet bpm beatsPerBar enabled)), [])
  | .clickEnable enabled => (s.update sender fun m => { m with clickEnabled := enabled }, [])
  | .hearSelf enabled => (s.hearSelf nowMs sender enabled, [])
  | .broadcastMixSet target gainDb pan muted =>
    (s.broadcastMixSet nowMs sender target gainDb pan muted, [])
  | .broadcastAudition enabled =>
    (s.hostOnly nowMs sender "broadcast audition by non-host" { s with audition := enabled }, [])
  | .ping nonce sentMs => (s.queue sender (.pong nonce sentMs), [])
  | .pong _ sentMs =>
    (s.update sender fun m => { m with
      rttMsLast := some (X.toF32 (saturatingSub nowMs sentMs)) }, [])
  | .revoke jti =>
    if sender ≠ hostMemberId then (s.violation nowMs sender "revoke by non-host", [])
    else s.revoke nowMs jti
  | .bye _ => (s.bye sender, [])
  | .setAvatar hash len => (s.setAvatar nowMs sender hash len, [])
  | .avatarChunk hash index total data =>
    (s.avatarChunk nowMs sender hash index total data, [])
  | .avatarRequest hash => (s.avatarRequest sender hash, [])
  | .streamCtl op => (s.streamCtl nowMs sender op, [])
  | .recordCtl op =>
    (s.hostOnly nowMs sender "record control by non-host" (s.emit (.recordCtl op)), [])
  | .setName name => (s.setName sender name, [])
  | .roster _ => (s.violation nowMs sender "roster from client", [])
  | .stats .. => (s.violation nowMs sender "stats from client", [])
  | .streamStatus _ => (s.violation nowMs sender "stream status from client", [])
  | .recordStatus .. => (s.violation nowMs sender "record status from client", [])
  | .broadcastReadiness _ => (s.violation nowMs sender "broadcast readiness from client", [])
  | .serverLog _ => (s.violation nowMs sender "server log from client", [])

/-- What one datagram released, in order. Every message is handled, whatever the
ones before it did to the sender. -/
def handleBatch (nowMs : UInt64) (sender : MemberId) :
    List ControlMsg → ServerCore X → ServerCore X × Outgoing
  | [], s => (s, [])
  | msg :: rest, s =>
    let r := s.handleControl nowMs sender msg
    let r' := handleBatch nowMs sender rest r.1
    (r'.1, r.2 ++ r'.2)

end ServerCore
end JamStream.Session
