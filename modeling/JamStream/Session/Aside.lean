import JamStream.Session.Calls
import JamStream.Session.Entries
import JamStream.Session.Turns

/-! What goes on beside admission: everything but the path of an init leaves the limiters
in front of it alone, and stores no answer to one. -/

namespace JamStream.Session
open Protocol Engine Foundations Relation
open Std (ExtTreeMap)
variable {X : Externals}

namespace Member

/-- The stored answer is the one there was, or none. -/
def Keeps (m m' : Member X) : Prop := ∀ cache, m'.respCache = some cache → m.respCache = some cache

theorem Keeps.of_eq {m m' : Member X} (h : m'.respCache = m.respCache) : m.Keeps m' :=
  fun _ hcache => h ▸ hcache

theorem Keeps.disconnect (m : Member X) : m.Keeps m.disconnect :=
  fun cache hcache => absurd hcache.symm (Option.some_ne_none cache)

theorem respCache_send (m : Member X) (msg : ControlMsg) :
    (m.send msg).respCache = m.respCache := by
  unfold send
  split <;> rfl

theorem respCache_post (m : Member X) (id : MemberId) (plain : Bytes) :
    (m.post id plain).1.respCache = m.respCache := by
  unfold post
  split <;> rfl

theorem respCache_postAll (id : MemberId) (plains : List Bytes) (m : Member X) :
    (postAll id plains m).1.respCache = m.respCache := by
  induction plains generalizing m with
  | nil => rfl
  | cons plain rest ih => exact (ih _).trans (respCache_post m id plain)

theorem respCache_flush (m : Member X) (id : MemberId) (nowMs : UInt64) :
    (m.flush id nowMs).1.respCache = m.respCache := respCache_postAll id _ _

theorem respCache_sendMix (m : Member X) (id : MemberId) (clock : UInt64)
    (pcm : Stereo X.toAudio) : (m.sendMix id clock pcm).1.respCache = m.respCache := by
  unfold sendMix
  split
  · rfl
  · split
    · rfl
    · exact respCache_post _ id _

theorem respCache_feedAvatar (cache : AvatarCache) (id : MemberId) (n fed : ℕ) (m : Member X) :
    (feedAvatar cache id n fed m).1.respCache = m.respCache := by
  induction n generalizing fed m with
  | zero => rfl
  | succ n ih =>
    unfold feedAvatar
    split
    · split
      · rfl
      · split
        · exact (ih _ _).trans (respCache_send _ _)
        · exact ih _ _
    · rfl

theorem respCache_takePlain (m : Member X) (plain : Bytes) :
    (m.takePlain plain).1.respCache = m.respCache := by
  unfold takePlain
  split
  · rfl
  · split_ifs
    · rfl
    · split <;> rfl
    · split <;> rfl
    · rfl

end Member

namespace ServerCore

/-- What admission goes by: the configuration, the limiters and the reads they allowed. -/
def gates (s : ServerCore X) :
    ServerConfig × Bytes × TokenBucket × List TokenBucket × TokenBucket × UInt64 :=
  (s.cfg, s.slotHasher, s.rejectBudget, s.initSlotBudget, s.initBudget, s.initReads)

def answer (s : ServerCore X) (id : MemberId) : Option RespCache :=
  s.members[id]?.bind Member.respCache

/-- The gates stand where they stood, and no answer is stored that was not. -/
structure Aside (s s' : ServerCore X) : Prop where
  gates : s'.gates = s.gates
  answers : ∀ id cache, s'.answer id = some cache → s.answer id = some cache

variable {s s' s'' : ServerCore X}

theorem Aside.refl (s : ServerCore X) : Aside s s := ⟨rfl, fun _ _ h => h⟩

theorem Aside.trans (h : Aside s s') (h' : Aside s' s'') : Aside s s'' where
  gates := h'.gates.trans h.gates
  answers id cache hcache := h.answers id cache (h'.answers id cache hcache)

theorem Aside.of_eq (hgates : s'.gates = s.gates) (hmembers : s'.members = s.members) :
    Aside s s' where
  gates := hgates
  answers id cache hcache := by
    unfold answer at hcache ⊢
    rwa [← hmembers]

theorem Aside.of_members (hgates : s'.gates = s.gates) {g : MemberId → Member X → Member X}
    (hmembers : ∀ id : MemberId, s'.members[id]? = s.members[id]?.map (g id))
    (hg : ∀ (id : MemberId) (m : Member X), s.members[id]? = some m → m.Keeps (g id m)) :
    Aside s s' where
  gates := hgates
  answers id cache hcache := by
    unfold answer at hcache ⊢
    rw [hmembers] at hcache
    cases hm : s.members[id]? with
    | none =>
      rw [hm] at hcache
      exact absurd hcache.symm (Option.some_ne_none cache)
    | some m =>
      rw [hm] at hcache
      exact hg id m hm cache hcache

theorem Aside.update (s : ServerCore X) (id : MemberId) {f : Member X → Member X}
    (hf : ∀ m, s.members[id]? = some m → m.Keeps (f m)) : Aside s (s.update id f) := by
  refine .of_members rfl (g := fun id' m => if id = id' then f m else m) (fun id' => ?_)
    fun id' m hm => ?_
  · rw [members_update]
    split_ifs
    · rfl
    · exact Option.map_id'.symm
  · split_ifs with hid
    · exact hf m (hid ▸ hm)
    · exact .of_eq rfl

theorem Aside.queue (s : ServerCore X) (id : MemberId) (msg : ControlMsg) :
    Aside s (s.queue id msg) := by
  have hsent : Aside s (s.update id fun m => m.send msg) :=
    .update s id fun m _ => .of_eq (m.respCache_send msg)
  exact ⟨hsent.gates, hsent.answers⟩

theorem Aside.each (s : ServerCore X)
    {f : MemberId → Member X → Member X × Outgoing × List Refusal}
    (hf : ∀ id m, (f id m).1.respCache = m.respCache) : Aside s (s.each f).1 :=
  .of_members rfl (members_each s f) fun id m _ => .of_eq (hf id m)

theorem Aside.map (s : ServerCore X) {g : MemberId → Member X → Member X}
    (hg : ∀ id m, (g id m).respCache = m.respCache) :
    Aside s { s with members := s.members.map g } :=
  .of_members rfl (fun _ => ExtTreeMap.getElem?_map) fun id m _ => .of_eq (hg id m)

theorem Aside.relay (s : ServerCore X) (msg : ControlMsg) : Aside s (s.relay msg) := by
  refine .each s fun id m => ?_
  split_ifs
  · exact m.respCache_send msg
  · rfl

theorem Aside.noteMusicianCount (s : ServerCore X) : Aside s s.noteMusicianCount := by
  unfold ServerCore.noteMusicianCount
  split_ifs <;> exact .of_eq rfl rfl

theorem Aside.departed (h : Aside s s') : Aside s s'.queueRoster.noteMusicianCount := by
  have hmarked : Aside s' s'.queueRoster := .of_eq rfl rfl
  exact (h.trans hmarked).trans (.noteMusicianCount _)

theorem Aside.relayed (h : Aside s s') (msg : ControlMsg) : Aside s (s'.relay msg) :=
  h.trans (.relay s' msg)

theorem Aside.emit (h : Aside s s') (event : ServerEvent) : Aside s (s'.emit event) :=
  h.trans (.of_eq rfl rfl)

theorem Aside.disconnectMember (s : ServerCore X) (id : MemberId) :
    Aside s (s.disconnectMember id) := by
  unfold ServerCore.disconnectMember
  split
  · have hgone : Aside s (s.update id Member.disconnect) :=
      .update s id fun m _ => .disconnect m
    exact hgone.trans (.of_eq rfl rfl)
  · exact .refl s

theorem Aside.flushMemberLink (s : ServerCore X) (nowMs : UInt64) (id : MemberId) :
    Aside s (s.flushMemberLink nowMs id).1 := by
  unfold ServerCore.flushMemberLink
  split
  · exact .refl s
  · split_ifs
    · exact .update s id fun m _ => .of_eq (m.respCache_flush id nowMs)
    · exact .refl s

theorem Aside.farewell (s : ServerCore X) (nowMs : UInt64) (id : MemberId) (reason : String) :
    Aside s (s.farewell nowMs id reason).1 := by
  unfold ServerCore.farewell
  split_ifs
  · exact (Aside.queue s id _).trans (.flushMemberLink _ nowMs id)
  · exact .refl s

theorem Aside.unseat (s : ServerCore X) (id : MemberId) : Aside s (s.unseat id) where
  gates := rfl
  answers id' cache hcache := by
    unfold answer at hcache ⊢
    have hleft : (s.members.erase id)[id']?.bind Member.respCache = some cache := hcache
    rw [OrderedMap.getElem?_erase] at hleft
    split_ifs at hleft
    · exact absurd hleft.symm (Option.some_ne_none cache)
    · exact hleft

theorem Aside.revoke (s : ServerCore X) (nowMs : UInt64) (jti : TokenId) :
    Aside s (s.revoke nowMs jti).1 := by
  have hbarred : Aside s (if jti ∈ s.revoked then s
      else { s with revoked := insert jti s.revoked }.emit (.tokenRevoked jti)) := by
    split_ifs
    · exact .refl s
    · exact .of_eq rfl rfl
  simp only [ServerCore.revoke]
  split
  · exact hbarred
  · rename_i id m _
    have hleft := (hbarred.trans (.farewell _ nowMs id "invite revoked")).trans (.unseat _ id)
    exact (hleft.emit _).departed

theorem Turn.aside {nowMs : UInt64} {sender : MemberId} {live leaving : Prop} {msg : ControlMsg}
    (h : Turn nowMs sender live leaving msg s s') : Aside s s' := by
  cases h with
  | settings f hf =>
    refine .update s sender fun m _ => .of_eq ?_
    rw [hf m]
    rfl
  | trains id f hf =>
    refine .update s id fun m _ => .of_eq ?_
    rw [hf m]
    rfl
  | queue id m => exact .queue s id m
  | relay m => exact .relay s m
  | emit | roster | store | host | audition => exact .of_eq rfl rfl
  | leave event =>
    exact ((Aside.disconnectMember s sender).emit event).departed
  | revoke jti => exact .revoke s nowMs jti

theorem Turns.aside {nowMs : UInt64} {sender : MemberId} {live leaving : Prop} {msg : ControlMsg}
    (h : Turns nowMs sender live leaving msg s s') : Aside s s' := by
  induction h with
  | refl => exact .refl s
  | tail _ hturn ih => exact ih.trans hturn.aside

theorem Aside.handleBatch (nowMs : UInt64) (sender : MemberId) (msgs : List ControlMsg)
    (s : ServerCore X) : Aside s (ServerCore.handleBatch nowMs sender msgs s).1 := by
  induction msgs generalizing s with
  | nil => exact .refl s
  | cons msg rest ih => exact (handleControl_turns s nowMs sender msg).aside.trans (ih _)

theorem Aside.violation (s : ServerCore X) (nowMs : UInt64) (id : MemberId) (what : String) :
    Aside s (s.violation nowMs id what) := by
  have hturns : Turns nowMs id False True (.hearSelf true) s (s.violation nowMs id what) :=
    violation_turns trivial s what
  exact hturns.aside

theorem Aside.openTransport (s : ServerCore X) (nowMs : UInt64) (src : SocketAddr)
    (id : MemberId) (counter : UInt64) (ciphertext : Bytes) :
    Aside s (s.openTransport nowMs src id counter ciphertext).1 := by
  unfold ServerCore.openTransport
  split
  · exact .refl s
  · split_ifs
    · exact .refl s
    · split
      · exact .refl s
      · split
        · exact .update s id fun _ _ => .of_eq rfl
        · exact .update s id fun m _ => .of_eq (Member.respCache_takePlain _ _)

theorem Aside.handleTransport (s : ServerCore X) (nowMs : UInt64) (src : SocketAddr)
    (id : MemberId) (counter : UInt64) (ciphertext : Bytes) :
    Aside s (s.handleTransport nowMs src id counter ciphertext).1 := by
  have hopened := Aside.openTransport s nowMs src id counter ciphertext
  unfold ServerCore.handleTransport
  generalize s.openTransport nowMs src id counter ciphertext = r at hopened ⊢
  match r with
  | (t, none) => exact hopened
  | (t, some (.error what)) => exact hopened.trans (.violation t nowMs id what)
  | (t, some (.ok none)) => exact hopened
  | (t, some (.ok (some msgs))) =>
    exact (hopened.trans (.handleBatch nowMs id msgs t)).trans (.flushMemberLink _ nowMs id)

theorem Aside.tickAudio (s : ServerCore X) : Aside s s.tickAudio.1 := by
  have hclock : Aside s { s with sampleClock := s.sampleClock + UInt64.ofNat tickSamples } :=
    .of_eq rfl rfl
  have hdecoded : ∀ t : ServerCore X, Aside t t.decodeUplinks := by
    intro t
    refine .of_members rfl (g := fun _ m =>
      if m.isActive .musician then (m.decodeFrame t.bcastTap).1 else m)
      (fun _ => ExtTreeMap.getElem?_map) fun id m _ => .of_eq ?_
    split_ifs <;> rfl
  have hmixed : ∀ t : ServerCore X, Aside t (t.mixBroadcast s.sampleClock) := fun t =>
    .of_eq rfl rfl
  have hmixes : ∀ t : ServerCore X, Aside t (t.sendMixes s.sampleClock).1 := by
    refine fun t => .each t fun id m => ?_
    split_ifs
    · exact m.respCache_sendMix id _ _
    · rfl
  have hsent : ∀ t : ServerCore X, Aside t t.sendBroadcast.1 := by
    intro t
    unfold ServerCore.sendBroadcast
    split
    · split
      · exact .refl t
      · split
        · exact .of_eq rfl rfl
        · rename_i enc payload _
          have hencoded : Aside t { t with
              bcastEncoder := some enc, bcastEncodes := t.bcastEncodes + 1 } := .of_eq rfl rfl
          refine hencoded.trans (.each _ fun id m => ?_)
          split_ifs
          · exact Member.respCache_post _ id _
          · rfl
    · exact .refl t
  exact ((((hclock.trans (hdecoded _)).trans (hmixed _)).trans (hmixes _)).trans (hsent _)).trans
    (.of_eq rfl rfl)

theorem Aside.sendStats (s : ServerCore X) (nowMs : UInt64) : Aside s (s.sendStats nowMs) := by
  unfold ServerCore.sendStats
  split
  · have hstamped : Aside s { s with lastStatsMs := nowMs } := .of_eq rfl rfl
    refine hstamped.trans (.each _ fun id m => ?_)
    split_ifs
    · exact Member.respCache_send _ _
    · rfl
  · exact .refl s

theorem Aside.flushRoster (s : ServerCore X) : Aside s s.flushRoster := by
  unfold ServerCore.flushRoster
  split_ifs
  · have hcleared : Aside s { s with
        rosterDirty := false, rosterEpoch := s.rosterEpoch + 1 } := .of_eq rfl rfl
    exact hcleared.trans (.relay _ _)
  · exact .refl s

theorem Aside.feedServerLogFrom (nowMs : UInt64) (n : ℕ) (s : ServerCore X) :
    Aside s (ServerCore.feedServerLogFrom nowMs n s) := by
  induction n generalizing s with
  | zero => exact .refl s
  | succ n ih =>
    simp only [ServerCore.feedServerLogFrom]
    split
    · rename_i tail line _ _
      split_ifs
      · have hpaid : Aside s { s with
            logBudget := (s.logBudget.take nowMs).1, logTail := some tail.clearDropped } :=
          .of_eq rfl rfl
        exact (hpaid.trans (.queue _ hostMemberId (.serverLog line))).trans (ih _)
      · exact .of_eq rfl rfl
      · exact .refl s
    · exact .refl s

theorem Aside.feedServerLog (s : ServerCore X) (nowMs : UInt64) :
    Aside s (s.feedServerLog nowMs) := by
  unfold ServerCore.feedServerLog
  split_ifs
  · exact .feedServerLogFrom nowMs _ s
  · exact .refl s

theorem Aside.pollLinks (s : ServerCore X) (nowMs : UInt64) : Aside s (s.pollLinks nowMs).1 := by
  refine .each s fun id m => ?_
  split_ifs
  · exact (Member.respCache_flush _ id nowMs).trans (Member.respCache_feedAvatar _ id _ _ m)
  · rfl

theorem Aside.disconnectAll (s : ServerCore X) (ids : List MemberId) :
    Aside s (s.disconnectAll ids) := by
  induction ids generalizing s with
  | nil => exact .refl s
  | cons id rest ih =>
    exact ((Aside.disconnectMember s id).emit _).trans (ih _)

theorem Aside.reap (s : ServerCore X) (nowMs : UInt64) : Aside s (s.reap nowMs) := by
  unfold ServerCore.reap
  split_ifs
  · exact .refl s
  · exact (Aside.disconnectAll s _).departed

theorem Aside.quietScan (s : ServerCore X) (nowMs : UInt64) : Aside s (s.quietScan nowMs) := by
  have hscan : Aside s { s with
      members := s.members.map fun _ m => { m with quiet := m.isQuiet nowMs } } :=
    .map s fun _ _ => rfl
  simp only [ServerCore.quietScan]
  split_ifs
  · exact hscan.trans (.of_eq rfl rfl)
  · exact hscan

theorem Aside.tick (s : ServerCore X) (nowMs : UInt64) : Aside s (s.tick nowMs).1 := by
  have hlinks := (((Aside.sendStats s.tickAudio.1 nowMs).trans (.flushRoster _)).trans
    (.feedServerLog _ nowMs)).trans (.pollLinks _ nowMs)
  simp only [ServerCore.tick, ServerCore.tickControl]
  exact (((Aside.tickAudio s).trans hlinks).trans (.reap _ nowMs)).trans (.quietScan _ nowMs)

theorem Aside.shutdown (s : ServerCore X) (nowMs : UInt64) (reason : String) :
    Aside s (s.shutdown nowMs reason).1 := by
  have hdepartures : ∀ (ids : List MemberId) (r : ServerCore X × Outgoing),
      Aside r.1 (ids.foldl (fun (r : ServerCore X × Outgoing) id =>
        let f := r.1.farewell nowMs id reason
        ((f.1.disconnectMember id).emit (.memberDisconnected id), r.2 ++ f.2)) r).1 := by
    intro ids
    induction ids with
    | nil => exact fun r => .refl r.1
    | cons id rest ih =>
      intro r
      have hleft := (Aside.farewell r.1 nowMs id reason).trans (.disconnectMember _ id)
      rw [List.foldl_cons]
      exact (hleft.emit _).trans (ih (_, _))
  simp only [ServerCore.shutdown]
  exact ((Aside.feedServerLog s nowMs).trans (hdepartures _ (_, []))).trans (.noteMusicianCount _)

theorem Aside.dropPeer (s : ServerCore X) (addr : SocketAddr) : Aside s (s.dropPeer addr) := by
  unfold ServerCore.dropPeer
  split
  · exact .refl s
  · exact ((Aside.disconnectMember s _).emit _).departed

theorem Aside.setBroadcastTap (s : ServerCore X) (on : Bool) : Aside s (s.setBroadcastTap on) := by
  unfold ServerCore.setBroadcastTap
  split_ifs
  · exact .refl s
  · refine .of_members rfl (fun _ => ExtTreeMap.getElem?_map) fun _ m _ => .of_eq rfl
  · refine .of_members rfl (fun _ => ExtTreeMap.getElem?_map) fun _ m _ => .of_eq rfl

theorem Aside.call {c : Call} (s : ServerCore X)
    (hc : ∀ nowMs nowUnix src data ephemeral,
      c ≠ .handleDatagram nowMs nowUnix src data ephemeral) : Aside s (s.step c) := by
  cases c with
  | handleDatagram nowMs nowUnix src data ephemeral => exact absurd rfl (hc _ _ _ _ _)
  | tick nowMs => exact .tick s nowMs
  | shutdown nowMs reason => exact .shutdown s nowMs reason
  | dropPeer addr => exact .dropPeer s addr
  | setBroadcastTap on => exact .setBroadcastTap s on
  | setStreamStatus nowMs destinations =>
    simp only [ServerCore.step, ServerCore.call, ServerCore.setStreamStatus]
    split_ifs
    · refine Aside.relayed ?_ _
      exact .of_eq rfl rfl
    · exact .of_eq rfl rfl
  | setBroadcastReadiness state =>
    simp only [ServerCore.step, ServerCore.call, ServerCore.setBroadcastReadiness]
    split_ifs
    · exact .refl s
    · refine Aside.relayed ?_ _
      exact .of_eq rfl rfl
  | setRecordStatus state stems =>
    simp only [ServerCore.step, ServerCore.call, ServerCore.setRecordStatus]
    split_ifs
    · exact .refl s
    · refine Aside.relayed ?_ _
      exact .of_eq rfl rfl
  | events => exact .of_eq rfl rfl
  | log line => exact .of_eq rfl rfl

end ServerCore
end JamStream.Session
