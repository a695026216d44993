import JamStream.Session.Calls
import JamStream.Session.Turns

/-! The ring of log lines is touched where the log is fed and where it is written, and
nowhere else. -/

namespace JamStream.Session
open Protocol Foundations Relation
variable {X : Externals}

namespace ServerCore

theorem logTail_noteMusicianCount (s : ServerCore X) : s.noteMusicianCount.logTail = s.logTail := by
  unfold noteMusicianCount
  split_ifs <;> rfl

theorem logTail_disconnectMember (s : ServerCore X) (id : MemberId) :
    (s.disconnectMember id).logTail = s.logTail := by
  unfold disconnectMember
  split_ifs <;> rfl

theorem logTail_departed (s : ServerCore X) :
    s.queueRoster.noteMusicianCount.logTail = s.logTail :=
  logTail_noteMusicianCount s.queueRoster

theorem logTail_flushMemberLink (s : ServerCore X) (nowMs : UInt64) (id : MemberId) :
    (s.flushMemberLink nowMs id).1.logTail = s.logTail := by
  unfold flushMemberLink
  split
  · rfl
  · split_ifs <;> rfl

theorem logTail_farewell (s : ServerCore X) (nowMs : UInt64) (id : MemberId) (reason : String) :
    (s.farewell nowMs id reason).1.logTail = s.logTail := by
  unfold farewell
  split_ifs
  · exact logTail_flushMemberLink (s.queue id (.bye reason)) nowMs id
  · rfl

theorem logTail_revoke (s : ServerCore X) (nowMs : UInt64) (jti : TokenId) :
    (s.revoke nowMs jti).1.logTail = s.logTail := by
  have hbarred : (if jti ∈ s.revoked then s
      else { s with revoked := insert jti s.revoked }.emit (.tokenRevoked jti)).logTail =
      s.logTail := by
    split_ifs <;> rfl
  simp only [revoke]
  split
  · exact hbarred
  · exact (logTail_departed _).trans ((logTail_farewell _ nowMs _ _).trans hbarred)

theorem Turn.logTail {nowMs : UInt64} {sender : MemberId} {live leaving : Prop} {msg : ControlMsg}
    {s s' : ServerCore X} (h : Turn nowMs sender live leaving msg s s') :
    s'.logTail = s.logTail := by
  cases h with
  | leave event => exact (logTail_departed _).trans (logTail_disconnectMember s sender)
  | revoke jti => exact logTail_revoke s nowMs jti
  | _ => rfl

theorem Turns.logTail {nowMs : UInt64} {sender : MemberId} {live leaving : Prop}
    {msg : ControlMsg} {s s' : ServerCore X} (h : Turns nowMs sender live leaving msg s s') :
    s'.logTail = s.logTail := by
  induction h with
  | refl => rfl
  | tail _ hturn ih => exact hturn.logTail.trans ih

theorem logTail_handleBatch (nowMs : UInt64) (sender : MemberId) (msgs : List ControlMsg)
    (s : ServerCore X) : (handleBatch nowMs sender msgs s).1.logTail = s.logTail := by
  induction msgs generalizing s with
  | nil => rfl
  | cons msg rest ih =>
    have hturns := (handleControl_turns s nowMs sender msg).logTail
    exact (ih _).trans hturns

theorem logTail_violation (s : ServerCore X) (nowMs : UInt64) (id : MemberId) (what : String) :
    (s.violation nowMs id what).logTail = s.logTail := by
  have hturns : Turns nowMs id False True (.hearSelf true) s (s.violation nowMs id what) :=
    violation_turns trivial s what
  exact hturns.logTail

theorem logTail_openTransport (s : ServerCore X) (nowMs : UInt64) (src : SocketAddr)
    (id : MemberId) (counter : UInt64) (ciphertext : Bytes) :
    (s.openTransport nowMs src id counter ciphertext).1.logTail = s.logTail := by
  unfold openTransport
  split
  · rfl
  · split_ifs
    · rfl
    · split
      · rfl
      · split <;> rfl

theorem logTail_handleTransport (s : ServerCore X) (nowMs : UInt64) (src : SocketAddr)
    (id : MemberId) (counter : UInt64) (ciphertext : Bytes) :
    (s.handleTransport nowMs src id counter ciphertext).1.logTail = s.logTail := by
  have hopened := logTail_openTransport s nowMs src id counter ciphertext
  unfold handleTransport
  rcases hr : s.openTransport nowMs src id counter ciphertext with ⟨t, _ | what | _ | msgs⟩ <;>
    rw [hr] at hopened
  · exact hopened
  · exact (logTail_violation t nowMs id what).trans hopened
  · exact hopened
  · exact ((logTail_flushMemberLink _ nowMs id).trans (logTail_handleBatch nowMs id msgs t)).trans
      hopened

theorem logTail_takeRejectTurn (s : ServerCore X) (nowMs : UInt64) (src : SocketAddr) :
    (s.takeRejectTurn nowMs src).1.logTail = s.logTail := by
  simp only [takeRejectTurn]
  split_ifs <;> rfl

theorem logTail_versionReject (s : ServerCore X) (nowMs : UInt64) (src : SocketAddr)
    (theirs : UInt16) (noise initPacket : Bytes) :
    (s.versionReject nowMs src theirs noise initPacket).1.logTail = s.logTail := by
  have hturn := logTail_takeRejectTurn s nowMs src
  simp only [versionReject]
  split_ifs
  · rfl
  · exact hturn
  · exact hturn

theorem logTail_capacityReject (s : ServerCore X) (nowMs : UInt64) (src : SocketAddr)
    (responder : Responder X.toCrypto) (initPacket : Bytes) :
    (s.capacityReject nowMs src responder initPacket).1.logTail = s.logTail := by
  have hturn := logTail_takeRejectTurn s nowMs src
  simp only [capacityReject]
  split_ifs
  · exact hturn
  · exact hturn

theorem logTail_initBudgetTake (s : ServerCore X) (nowMs : UInt64) (src : SocketAddr) :
    (s.initBudgetTake nowMs src).1.logTail = s.logTail := by
  simp only [initBudgetTake]
  split_ifs <;> rfl

theorem logTail_cookieChallenge (s : ServerCore X) (nowMs : UInt64) (src : SocketAddr)
    (initPacket : Bytes) : (s.cookieChallenge nowMs src initPacket).1.logTail = s.logTail := by
  simp only [cookieChallenge]
  split_ifs <;> rfl

theorem logTail_violationAvailable (s : ServerCore X) (nowMs : UInt64) (id : MemberId) :
    (s.violationAvailable nowMs id).1.logTail = s.logTail := by
  unfold violationAvailable
  split <;> rfl

theorem logTail_greet (s : ServerCore X) (id : MemberId) : (s.greet id).logTail = s.logTail := by
  have hstream : (if s.streamStatus.isEmpty then s
      else s.queue id (.streamStatus s.streamStatus)).logTail = s.logTail := by
    split_ifs <;> rfl
  unfold greet
  extract_lets t u
  have hready : u.logTail = t.logTail := by
    unfold u
    cases t.broadcastReady <;> rfl
  split_ifs
  · exact hready.trans hstream
  · exact hready.trans hstream

theorem logTail_takeSeat (s : ServerCore X) (nowMs : UInt64) (src : SocketAddr) (token : Token)
    (responder : Responder X.toCrypto) (initHash : Digest) (ephemeral : Bytes) :
    (s.takeSeat nowMs src token responder initHash ephemeral).1.logTail = s.logTail := by
  unfold takeSeat
  split
  · rfl
  · rename_i t ht
    have hmedia : t.logTail = s.logTail := by
      unfold ensureBcastEncoder at ht
      split_ifs at ht
      · obtain ⟨encoder, -, rfl⟩ := Option.map_eq_some_iff.mp ht
        rfl
      · rw [← Option.some.inj ht]
    split
    · exact ((logTail_noteMusicianCount _).trans (logTail_greet _ _)).trans hmedia
    · exact hmedia

theorem logTail_admitToken (s : ServerCore X) (nowMs : UInt64) (src : SocketAddr)
    (noise ephemeral : Bytes) (token : Token) (responder : Responder X.toCrypto) :
    (s.admitToken nowMs src noise ephemeral token responder).1.logTail = s.logTail := by
  have havailable := logTail_violationAvailable s nowMs token.memberId
  simp only [admitToken]
  split_ifs
  · rfl
  · exact havailable
  · split
    · exact havailable
    · exact (logTail_capacityReject _ nowMs src responder _).trans havailable
  · split
    · exact havailable
    · exact (logTail_takeSeat _ nowMs src token responder _ ephemeral).trans havailable

theorem logTail_admitInit (s : ServerCore X) (nowMs nowUnix : UInt64) (src : SocketAddr)
    (noise ephemeral : Bytes) :
    (s.admitInit nowMs nowUnix src noise ephemeral).1.logTail = s.logTail := by
  have hbudget := logTail_initBudgetTake s nowMs src
  simp only [admitInit]
  split_ifs
  · exact hbudget
  · split
    · exact hbudget
    · split
      · exact hbudget
      · exact (logTail_admitToken _ nowMs src noise ephemeral _ _).trans hbudget

theorem logTail_handleDatagram (s : ServerCore X) (nowMs nowUnix : UInt64) (src : SocketAddr)
    (data ephemeral : Bytes) :
    (s.handleDatagram nowMs nowUnix src data ephemeral).1.logTail = s.logTail := by
  have hcookie : (s.cookieRequired nowMs).1.logTail = s.logTail := rfl
  simp only [handleDatagram]
  split
  · split_ifs
    · exact logTail_versionReject s nowMs src _ _ data
    · exact (logTail_cookieChallenge _ nowMs src data).trans hcookie
    · exact (logTail_admitInit _ nowMs nowUnix src _ ephemeral).trans hcookie
  · split_ifs
    · exact (logTail_admitInit _ nowMs nowUnix src _ ephemeral).trans hcookie
    · exact hcookie
  · exact logTail_handleTransport s nowMs src _ _ _
  · rfl

theorem logTail_sendBroadcast (s : ServerCore X) : s.sendBroadcast.1.logTail = s.logTail := by
  unfold sendBroadcast
  split
  · split
    · rfl
    · split <;> rfl
  · rfl

theorem logTail_tickAudio (s : ServerCore X) : s.tickAudio.1.logTail = s.logTail := by
  have hmixed : (({ s with sampleClock := s.sampleClock + UInt64.ofNat tickSamples }.decodeUplinks
      ).mixBroadcast s.sampleClock).logTail = s.logTail := rfl
  simp only [tickAudio]
  exact (logTail_sendBroadcast _).trans hmixed

theorem logTail_sendStats (s : ServerCore X) (nowMs : UInt64) :
    (s.sendStats nowMs).logTail = s.logTail := by
  unfold sendStats
  split_ifs <;> rfl

theorem logTail_flushRoster (s : ServerCore X) : s.flushRoster.logTail = s.logTail := by
  unfold flushRoster
  split_ifs <;> rfl

theorem logTail_disconnectAll (s : ServerCore X) (ids : List MemberId) :
    (s.disconnectAll ids).logTail = s.logTail := by
  induction ids generalizing s with
  | nil => rfl
  | cons id rest ih => exact (ih _).trans (logTail_disconnectMember s id)

theorem logTail_reap (s : ServerCore X) (nowMs : UInt64) :
    (s.reap nowMs).logTail = s.logTail := by
  unfold reap
  split_ifs
  · rfl
  · exact (logTail_departed _).trans (logTail_disconnectAll s _)

theorem logTail_quietScan (s : ServerCore X) (nowMs : UInt64) :
    (s.quietScan nowMs).logTail = s.logTail := by
  simp only [quietScan]
  split_ifs <;> rfl

/-! The two calls that feed the log, cut where the feed stands. -/

def untilFeed (s : ServerCore X) (nowMs : UInt64) : ServerCore X :=
  (s.tickAudio.1.sendStats nowMs).flushRoster

def afterFeed (s : ServerCore X) (nowMs : UInt64) : ServerCore X :=
  ((s.pollLinks nowMs).1.reap nowMs).quietScan nowMs

/-- The last part of a shutdown: everyone connected is sent off. -/
def sendOff (s : ServerCore X) (nowMs : UInt64) (reason : String) : ServerCore X :=
  let connected := (s.members.toList.filter fun e => e.2.connected).map Prod.fst
  (connected.foldl (fun (r : ServerCore X × Outgoing) id =>
    let f := r.1.farewell nowMs id reason
    ((f.1.disconnectMember id).emit (.memberDisconnected id), r.2 ++ f.2)) (s, [])).1
      |>.noteMusicianCount

theorem step_tick (s : ServerCore X) (nowMs : UInt64) :
    s.step (.tick nowMs) = ((s.untilFeed nowMs).feedServerLog nowMs).afterFeed nowMs := by
  simp only [step, call, tick, tickControl, untilFeed, afterFeed]

theorem step_shutdown (s : ServerCore X) (nowMs : UInt64) (reason : String) :
    s.step (.shutdown nowMs reason) = (s.feedServerLog nowMs).sendOff nowMs reason := by
  simp only [step, call, shutdown, sendOff]

theorem logTail_untilFeed (s : ServerCore X) (nowMs : UInt64) :
    (s.untilFeed nowMs).logTail = s.logTail :=
  ((logTail_flushRoster _).trans (logTail_sendStats _ nowMs)).trans (logTail_tickAudio s)

theorem logTail_afterFeed (s : ServerCore X) (nowMs : UInt64) :
    (s.afterFeed nowMs).logTail = s.logTail :=
  (logTail_quietScan _ nowMs).trans (logTail_reap _ nowMs)

theorem logTail_sendOff (s : ServerCore X) (nowMs : UInt64) (reason : String) :
    (s.sendOff nowMs reason).logTail = s.logTail := by
  have hdepartures : ∀ (ids : List MemberId) (r : ServerCore X × Outgoing),
      (ids.foldl (fun (r : ServerCore X × Outgoing) id =>
        let f := r.1.farewell nowMs id reason
        ((f.1.disconnectMember id).emit (.memberDisconnected id), r.2 ++ f.2)) r).1.logTail =
      r.1.logTail := by
    intro ids
    induction ids with
    | nil => exact fun r => rfl
    | cons id rest ih =>
      intro r
      have hleft := (logTail_disconnectMember (r.1.farewell nowMs id reason).1 id).trans
        (logTail_farewell r.1 nowMs id reason)
      rw [List.foldl_cons]
      exact (ih (_, _)).trans hleft
  exact (logTail_noteMusicianCount _).trans (hdepartures _ (s, []))

theorem logTail_step {c : Call} (s : ServerCore X) (htick : ∀ nowMs, c ≠ .tick nowMs)
    (hdown : ∀ nowMs reason, c ≠ .shutdown nowMs reason) (hlog : ∀ line, c ≠ .log line) :
    (s.step c).logTail = s.logTail := by
  cases c with
  | handleDatagram nowMs nowUnix src data ephemeral =>
    exact logTail_handleDatagram s nowMs nowUnix src data ephemeral
  | tick nowMs => exact absurd rfl (htick nowMs)
  | shutdown nowMs reason => exact absurd rfl (hdown nowMs reason)
  | log line => exact absurd rfl (hlog line)
  | events => rfl
  | dropPeer addr =>
    simp only [step, call, dropPeer]
    split
    · rfl
    · exact (logTail_departed _).trans (logTail_disconnectMember s _)
  | setBroadcastTap on =>
    simp only [step, call, setBroadcastTap]
    split_ifs <;> rfl
  | setStreamStatus nowMs destinations =>
    simp only [step, call, setStreamStatus]
    split_ifs <;> rfl
  | setBroadcastReadiness state =>
    simp only [step, call, setBroadcastReadiness]
    split_ifs <;> rfl
  | setRecordStatus state stems =>
    simp only [step, call, setRecordStatus]
    split_ifs <;> rfl

end ServerCore
end JamStream.Session
