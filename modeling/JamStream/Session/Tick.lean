import JamStream.Session.ServerCore

/-! One mix tick: uplinks are decoded, the broadcast and the personal mixes go out,
the control links are polled, and the silent are reaped. -/

namespace JamStream.Session
open Protocol Engine Foundations
variable {X : Externals}

namespace Member

def isActive (m : Member X) (role : Role) : Bool := m.connected && m.role = role

/-- This tick's audio, silence while the buffer fills or when decoding fails. -/
def decodeFrame (m : Member X) (tap : Bool) : Member X × Stereo X.toAudio :=
  let pulled := X.jitterPull m.jitter
  let silent := silence X.toAudio tickSamples
  let decoded : Option X.Decoder × Stereo X.toAudio :=
    match m.decoder, pulled.2 with
    | some dec, .frame p | some dec, .recovered p =>
      let r := X.decode dec (some p)
      (some r.1, r.2.getD silent)
    | some dec, .missing =>
      let r := X.decode dec none
      (some r.1, r.2.getD silent)
    | dec, _ => (dec, silent)
  ({ m with
    jitter := pulled.1
    decoder := decoded.1
    levelPeak := if tap then X.fall (X.peak decoded.2) m.levelPeak else m.levelPeak
    levelRms := if tap then X.fall (X.rms decoded.2) m.levelRms else m.levelRms }, decoded.2)

def sendFrame (m : Member X) (id : MemberId) (timestamp : UInt64) (duration : FrameDuration)
    (payload : Bytes) : Member X × Outgoing :=
  { m with sendSeq := m.sendSeq + 1 }.post id (MediaFrame.encode
    { seq := m.sendSeq, timestamp, duration, stereo := true, payload, redundant := none })

def sendMix (m : Member X) (id : MemberId) (clock : UInt64) (pcm : Stereo X.toAudio) :
    Member X × Outgoing :=
  match m.encoder with
  | none => (m, [])
  | some enc =>
    match X.encode enc pcm with
    | (enc, none) => ({ m with encoder := some enc }, [])
    | (enc, some payload) => { m with encoder := some enc }.sendFrame id clock .ms2_5 payload

/-- The uplink as it looks from here, over the window since the last report. -/
def report (m : Member X) : ControlMsg :=
  let cur := X.jitterStats m.jitter
  let window := (LossWindow.between m.statsPrev cur).getD .zero
  .stats (window.wireLossPct X.toAudio) (UInt16.ofNat (min cur.depthFrames 65535))
    (window.recoveredPct X.toAudio)

/-- Feeds the train at the head into the link, at most two chunks a poll and none
while the link is backed up. Each round sends a chunk or drops a train. -/
def feedAvatar (cache : AvatarCache) (id : MemberId) :
    ℕ → ℕ → Member X → Member X × List Refusal
  | 0, _, m => (m, [])
  | n + 1, fed, m =>
    if fed < avatarChunksPerPoll ∧ m.link.pendingLen < avatarFeedHighWater then
      match m.avatarTx with
      | [] => (m, [])
      | tx :: rest =>
        match (cache.get tx.hash).map tx.nextChunk with
        | some (tx', some chunk) =>
          let r := feedAvatar cache id n (fed + 1) ({ m with avatarTx := tx' :: rest }.send chunk)
          (r.1, m.refusal id chunk ++ r.2)
        | _ => feedAvatar cache id n fed { m with avatarTx := rest }
    else (m, [])

def pollLink (m : Member X) (cache : AvatarCache) (id : MemberId) (nowMs : UInt64) :
    Member X × Outgoing × List Refusal :=
  let fed := feedAvatar cache id (avatarChunksPerPoll + m.avatarTx.length) 0 m
  let polled := fed.1.flush id nowMs
  (polled.1, polled.2, fed.2)

def isGone (m : Member X) (timeoutMs nowMs : UInt64) : Bool :=
  m.connected && (timeoutMs ≤ saturatingSub nowMs m.lastHeardMs || m.link.isDead)

def isQuiet (m : Member X) (nowMs : UInt64) : Bool :=
  m.connected && memberQuietAfterMs ≤ saturatingSub nowMs m.lastHeardMs

end Member

namespace ServerCore

def decodeUplinks (s : ServerCore X) : ServerCore X :=
  { s with
    members := s.members.map fun _ m =>
      if m.isActive .musician then (m.decodeFrame s.bcastTap).1 else m
    decoded := s.members.toList.filterMap fun e =>
      if e.2.isActive .musician then some (e.1, (e.2.decodeFrame s.bcastTap).2) else none }

def bcastIndex (s : ServerCore X) : ℕ := s.tickCount.toNat % bcastTicks

def mixBroadcast (s : ServerCore X) (clock : UInt64) : ServerCore X :=
  let mixed := X.limiterProcess s.limiter
    (mixInto s.decoded (fun id => s.bcastFaders[id]?.getD .unity) none tickSamples)
  { s with
    bcastSlot := s.bcastIndex
    bcastClock := if s.bcastIndex = 0 then clock else s.bcastClock
    limiter := mixed.1
    bcastAccum := s.bcastAccum.take (s.bcastIndex * tickSamples) ++ mixed.2 ++
      s.bcastAccum.drop ((s.bcastIndex + 1) * tickSamples) }

def broadcastAudio (s : ServerCore X) : Stereo X.toAudio :=
  (s.bcastAccum.drop (s.bcastSlot * tickSamples)).take tickSamples

/-- What one member hears: an auditioning host the broadcast itself, anyone else
their own mix, with the click where it is on. -/
def personalMix (s : ServerCore X) (clock : UInt64) (id : MemberId) (m : Member X) :
    Stereo X.toAudio :=
  if s.audition ∧ id = hostMemberId then s.broadcastAudio
  else
    let mixed := mixInto s.decoded (fun t => m.faders[t]?.getD .unity)
      (if m.hearSelf then none else some id) tickSamples
    if s.metronomeEnabled && m.clickEnabled then addClick (X.click s.metronome clock) mixed
    else mixed

def sendMixes (s : ServerCore X) (clock : UInt64) : ServerCore X × Outgoing :=
  s.each fun id m =>
    if m.isActive .musician then
      let r := m.sendMix id clock (s.personalMix clock id m)
      (r.1, r.2, [])
    else (m, [], [])

/-- Encoded once for all listeners; only the number and the seal differ. -/
def sendBroadcast (s : ServerCore X) : ServerCore X × Outgoing :=
  if s.bcastIndex = bcastTicks - 1 ∧ s.members.toList.any fun e => e.2.isActive .listener then
    match s.bcastEncoder with
    | none => (s, [])
    | some enc =>
      match X.encode enc s.bcastAccum with
      | (enc, none) => ({ s with bcastEncoder := some enc }, [])
      | (enc, some payload) =>
        { s with bcastEncoder := some enc, bcastEncodes := s.bcastEncodes + 1 }.each fun id m =>
          if m.isActive .listener then
            let r := m.sendFrame id s.bcastClock .ms20 payload
            (r.1, r.2, [])
          else (m, [], [])
  else (s, [])

def sendStats (s : ServerCore X) (nowMs : UInt64) : ServerCore X :=
  if statsIntervalMs ≤ saturatingSub nowMs s.lastStatsMs then
    ({ s with lastStatsMs := nowMs }.each fun id m =>
      if m.isActive .musician then
        ({ m with statsPrev := X.jitterStats m.jitter }.send m.report, [], m.refusal id m.report)
      else (m, [], [])).1
  else s

def pollLinks (s : ServerCore X) (nowMs : UInt64) : ServerCore X × Outgoing :=
  s.each fun id m => if m.connected then m.pollLink s.avatarCache id nowMs else (m, [], [])

def gone (s : ServerCore X) (nowMs : UInt64) : List MemberId :=
  (s.members.toList.filter fun e => e.2.isGone s.cfg.memberTimeoutMs nowMs).map Prod.fst

def disconnectAll (s : ServerCore X) (ids : List MemberId) : ServerCore X :=
  ids.foldl (fun s id => (s.disconnectMember id).emit (.memberDisconnected id)) s

def reap (s : ServerCore X) (nowMs : UInt64) : ServerCore X :=
  if s.gone nowMs = [] then s
  else ((s.disconnectAll (s.gone nowMs)).queueRoster).noteMusicianCount

/-- Publishes who has gone quiet or is heard from again. -/
def quietScan (s : ServerCore X) (nowMs : UInt64) : ServerCore X :=
  let t := { s with members := s.members.map fun _ m => { m with quiet := m.isQuiet nowMs } }
  if s.members.toList.any fun e => e.2.isQuiet nowMs != e.2.quiet then t.queueRoster else t

def tickAudio (s : ServerCore X) : ServerCore X × Outgoing :=
  let clock := s.sampleClock
  let s := ({ s with sampleClock := clock + UInt64.ofNat tickSamples }.decodeUplinks).mixBroadcast
    clock
  let mixes := s.sendMixes clock
  let bcast := mixes.1.sendBroadcast
  ({ bcast.1 with tickCount := bcast.1.tickCount + 1 }, mixes.2 ++ bcast.2)

/-- The second half: control links and the two scans. -/
def tickControl (s : ServerCore X) (nowMs : UInt64) : ServerCore X × Outgoing :=
  let polled := (((s.sendStats nowMs).flushRoster).feedServerLog nowMs).pollLinks nowMs
  ((polled.1.reap nowMs).quietScan nowMs, polled.2)

def tick (s : ServerCore X) (nowMs : UInt64) : ServerCore X × Outgoing :=
  let audio := s.tickAudio
  let control := audio.1.tickControl nowMs
  (control.1, audio.2 ++ control.2)

end ServerCore
end JamStream.Session
