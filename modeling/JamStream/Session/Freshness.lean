import JamStream.Session.Orderly
import JamStream.Session.Plaintext

/-! The roster is never stale: whatever changes what it shows also marks it to go out
again, so while it is not marked everyone's copy is the current one. -/

namespace JamStream.Session
open Protocol Engine Foundations Runs
variable {X : Externals}

namespace Member

theorem info_send (m : Member X) (msg : ControlMsg) (id : MemberId) :
    (m.send msg).info id = m.info id := by
  unfold send
  split <;> rfl

theorem info_post (m : Member X) (id : MemberId) (plain : Bytes) :
    (m.post id plain).1.info id = m.info id := by
  unfold post
  split <;> rfl

theorem info_postAll (id : MemberId) (plains : List Bytes) (m : Member X) :
    (postAll id plains m).1.info id = m.info id := by
  induction plains generalizing m with
  | nil => rfl
  | cons plain rest ih => exact (ih _).trans (info_post m id plain)

theorem info_flush (m : Member X) (id : MemberId) (nowMs : UInt64) :
    (m.flush id nowMs).1.info id = m.info id := info_postAll id _ _

theorem info_sendFrame (m : Member X) (id : MemberId) (timestamp : UInt64)
    (duration : FrameDuration) (payload : Bytes) :
    (m.sendFrame id timestamp duration payload).1.info id = m.info id := info_post _ id _

theorem info_sendMix (m : Member X) (id : MemberId) (clock : UInt64) (pcm : Stereo X.toAudio) :
    (m.sendMix id clock pcm).1.info id = m.info id := by
  unfold sendMix
  split
  · rfl
  · split
    · rfl
    · exact info_sendFrame _ id clock _ _

theorem info_feedAvatar (cache : AvatarCache) (id : MemberId) (n fed : ℕ) (m : Member X) :
    (feedAvatar cache id n fed m).1.info id = m.info id := by
  induction n generalizing fed m with
  | zero => rfl
  | succ n ih =>
    unfold feedAvatar
    split
    · split
      · rfl
      · split
        · exact (ih _ _).trans (info_send _ _ id)
        · exact ih _ _
    · rfl

theorem info_pollLink (m : Member X) (cache : AvatarCache) (id : MemberId) (nowMs : UInt64) :
    (m.pollLink cache id nowMs).1.info id = m.info id :=
  (info_flush _ id nowMs).trans (info_feedAvatar cache id _ _ m)

theorem info_takePlain (m : Member X) (plain : Bytes) (id : MemberId) :
    (m.takePlain plain).1.info id = m.info id := by
  unfold takePlain
  split
  · rfl
  · split_ifs
    · rfl
    · split <;> rfl
    · split <;> rfl
    · rfl

end Member

/-- The calls a running session is made of: all but the one that ends it. -/
def Call.running : Call → Bool
  | .shutdown .. => false
  | _ => true

namespace ServerCore

abbrev SameInfo : ServerCore X → ServerCore X → Prop := Entries fun id m m' => m'.info id = m.info id

/-- The roster is marked, or it was not marked before and shows what it did. -/
def Listed (s s' : ServerCore X) : Prop :=
  s'.rosterDirty = false → s.rosterDirty = false ∧ s'.roster = s.roster

variable {s s' s'' : ServerCore X}

theorem SameInfo.refl (s : ServerCore X) : SameInfo s s := .of_eq (fun _ _ => rfl) rfl

theorem SameInfo.roster (h : SameInfo s s') : s'.roster = s.roster := by
  have hshown : s'.members.map (fun id m => m.info id) = s.members.map fun id m => m.info id := by
    refine Std.ExtTreeMap.ext_getElem? fun id => ?_
    rw [Std.ExtTreeMap.getElem?_map, Std.ExtTreeMap.getElem?_map]
    have hrel := h id
    revert hrel
    generalize s.members[id]? = a, s'.members[id]? = b
    rintro (hr | _)
    · exact congrArg some hr
    · rfl
  have hlist : ∀ t : ServerCore X,
      t.roster = (t.members.map fun id m => m.info id).toList.map Prod.snd := by
    intro t
    rw [Std.ExtTreeMap.toList_map, List.map_map]
    rfl
  rw [hlist, hlist, hshown]

theorem Listed.refl (s : ServerCore X) : Listed s s := fun h => ⟨h, rfl⟩

theorem Listed.trans (h : Listed s s') (h' : Listed s' s'') : Listed s s'' := fun hclean => by
  obtain ⟨hclean', hroster'⟩ := h' hclean
  obtain ⟨hclean'', hroster⟩ := h hclean'
  exact ⟨hclean'', hroster'.trans hroster⟩

theorem Listed.of_dirty (h : s'.rosterDirty = true) : Listed s s' :=
  fun hclean => absurd (h.symm.trans hclean) Bool.false_ne_true.symm

theorem Listed.of_info (h : SameInfo s s') (hdirty : s'.rosterDirty = s.rosterDirty) :
    Listed s s' := fun hclean => ⟨hdirty.symm.trans hclean, h.roster⟩

theorem Listed.of_eq (hmembers : s'.members = s.members) (hdirty : s'.rosterDirty = s.rosterDirty) :
    Listed s s' := .of_info (.of_eq (fun _ _ => rfl) hmembers) hdirty

theorem Listed.update (s : ServerCore X) (id : MemberId) {f : Member X → Member X}
    (hf : ∀ m, s.members[id]? = some m → (f m).info id = m.info id) : Listed s (s.update id f) :=
  .of_info (entries_update (fun _ _ => rfl) hf) rfl

theorem Listed.queue (s : ServerCore X) (id : MemberId) (msg : ControlMsg) :
    Listed s (s.queue id msg) :=
  .of_info (entries_queue (fun _ _ => rfl) fun m => m.info_send msg id) rfl

theorem Listed.each (s : ServerCore X)
    {f : MemberId → Member X → Member X × Outgoing × List Refusal}
    (hf : ∀ id (m : Member X), (f id m).1.info id = m.info id) : Listed s (s.each f).1 :=
  .of_info (entries_each hf) rfl

theorem Listed.relay (s : ServerCore X) (msg : ControlMsg) : Listed s (s.relay msg) :=
  .of_info (entries_relay (fun _ _ => rfl) fun id m => m.info_send msg id) rfl

theorem dirty_noteMusicianCount (s : ServerCore X) :
    s.noteMusicianCount.rosterDirty = s.rosterDirty := by
  unfold noteMusicianCount
  split_ifs <;> rfl

theorem Listed.queued (s t : ServerCore X) : Listed s t.queueRoster.noteMusicianCount :=
  .of_dirty (dirty_noteMusicianCount _)

theorem Listed.violation (s : ServerCore X) (nowMs : UInt64) (id : MemberId) (what : String) :
    Listed s (s.violation nowMs id what) := by
  simp only [ServerCore.violation]
  split
  · exact .of_eq rfl rfl
  · split_ifs
    · refine .trans (.update s id fun m _ => ?_) (.of_eq rfl rfl)
      rfl
    · exact .queued s _

theorem Listed.takeFanout (s : ServerCore X) (nowMs : UInt64) (sender : MemberId) :
    Listed s (s.takeFanout nowMs sender).1 := by
  simp only [ServerCore.takeFanout]
  split
  · exact .refl s
  · split_ifs
    · exact .update s sender fun _ _ => rfl
    · refine .trans (.update s sender fun m _ => ?_) (.violation _ nowMs sender _)
      rfl

theorem Listed.hostOnly {t : ServerCore X} (nowMs : UInt64) (sender : MemberId) (what : String)
    (h : Listed s t) : Listed s (s.hostOnly nowMs sender what t) := by
  unfold ServerCore.hostOnly
  split_ifs
  · exact .violation s nowMs sender what
  · exact h

theorem Listed.revoke (s : ServerCore X) (nowMs : UInt64) (jti : TokenId) :
    Listed s (s.revoke nowMs jti).1 := by
  simp only [ServerCore.revoke]
  split
  · split_ifs
    · exact .refl s
    · exact .of_eq rfl rfl
  · exact .queued s _

theorem Listed.pullAvatar (s : ServerCore X) (owner : MemberId) (hash : AvatarHash)
    (len : UInt32) : Listed s (s.pullAvatar owner hash len) := by
  refine .trans (.update s owner fun m _ => ?_) (.queue _ owner _)
  rfl

theorem Listed.announceAvatar (s : ServerCore X) (sender : MemberId) (hash : AvatarHash)
    (len : UInt32) {unchanged : Bool}
    (hsame : unchanged → ∀ m, s.members[sender]? = some m → m.avatar = some (hash, len)) :
    Listed s (s.announceAvatar sender hash len unchanged) := by
  simp only [ServerCore.announceAvatar]
  split
  · split_ifs
    · exact .of_eq rfl rfl
    · exact .refl s
  · rename_i m hm
    cases unchanged with
    | false => exact .of_dirty rfl
    | true =>
      have hnamed : Listed s (s.update sender fun m => { m with avatar := some (hash, len) }) := by
        refine .update s sender fun m' hm' => ?_
        rw [← hsame rfl m' hm']
      simp only [if_true, Bool.true_and]
      refine hnamed.trans ?_
      generalize s.update sender (fun m => { m with avatar := some (hash, len) }) = t
      split_ifs
      · refine .trans (.of_eq rfl rfl) (.update (t.touchAvatar hash) sender fun m _ => ?_)
        rfl
      · exact .refl t
      · exact .pullAvatar t sender hash len

theorem Listed.setAvatar (s : ServerCore X) (nowMs : UInt64) (sender : MemberId)
    (hash : AvatarHash) (len : UInt32) : Listed s (s.setAvatar nowMs sender hash len) := by
  simp only [ServerCore.setAvatar]
  split_ifs with _ hsame
  · exact .violation s nowMs sender _
  · refine .announceAvatar s sender hash len fun _ m hm => ?_
    rw [hm] at hsame
    exact of_decide_eq_true hsame
  · exact (Listed.takeFanout s nowMs sender).trans
      (.announceAvatar _ sender hash len fun h => absurd h Bool.false_ne_true)
  · exact .takeFanout s nowMs sender

theorem Listed.serve (hash : AvatarHash) (waiting : List MemberId) (s : ServerCore X) :
    Listed s (waiting.foldl (fun s id => if s.isConnected id then s.startTrain id hash else s) s) := by
  induction waiting generalizing s with
  | nil => exact .refl s
  | cons id rest ih =>
    rw [List.foldl_cons]
    refine .trans ?_ (ih _)
    split_ifs
    · exact .update s id fun _ _ => rfl
    · exact .refl s

theorem Listed.avatarChunk (s : ServerCore X) (nowMs : UInt64) (sender : MemberId)
    (hash : AvatarHash) (index total : UInt16) (data : Bytes) :
    Listed s (s.avatarChunk nowMs sender hash index total data) := by
  simp only [ServerCore.avatarChunk]
  split
  · exact .refl s
  · rename_i m _
    have htaken : Listed s (s.update sender fun m' =>
        { m' with avatarRx := (takeChunk X m.avatarRx hash index total data).1 }) :=
      .update s sender fun _ _ => rfl
    refine htaken.trans ?_
    split
    · exact .refl _
    · exact .trans (.of_eq rfl rfl) (.serve hash _ _)
    · exact .violation _ nowMs sender _

theorem Listed.avatarRequest (s : ServerCore X) (sender : MemberId) (hash : AvatarHash) :
    Listed s (s.avatarRequest sender hash) := by
  simp only [ServerCore.avatarRequest]
  split_ifs
  · refine .trans (.of_eq rfl rfl) (.update (s.touchAvatar hash) sender fun m _ => ?_)
    rfl
  · exact .of_eq rfl rfl
  · split
    · exact .refl s
    · rename_i owner len _
      obtain ⟨waiters, hw⟩ := noteAvatarWaiter_store s hash sender
      have hnoted : Listed s (s.noteAvatarWaiter hash sender) := by
        rw [hw]
        exact .of_eq rfl rfl
      split_ifs
      · exact hnoted.trans (.pullAvatar _ owner hash len)
      · exact hnoted

theorem Listed.handleControl (s : ServerCore X) (nowMs : UInt64) (sender : MemberId)
    (msg : ControlMsg) : Listed s (s.handleControl nowMs sender msg).1 := by
  cases msg with
  | chat claimed text =>
    simp only [ServerCore.handleControl]
    split_ifs
    · exact (Listed.takeFanout s nowMs sender).trans (.relay _ _)
    · exact .takeFanout s nowMs sender
  | mixerSet target gainDb pan muted =>
    simp only [ServerCore.handleControl]
    split_ifs
    · exact .violation s nowMs sender _
    · exact .update s sender fun _ _ => rfl
  | metronomeSet bpm beatsPerBar enabled =>
    refine .hostOnly nowMs sender _ (.trans (.of_eq ?_ ?_) (.relay _ _)) <;> rfl
  | clickEnable enabled => exact .update s sender fun _ _ => rfl
  | hearSelf enabled =>
    simp only [ServerCore.handleControl, ServerCore.hearSelf]
    split
    · exact .refl s
    · split_ifs
      · exact .violation s nowMs sender _
      · exact .update s sender fun _ _ => rfl
  | broadcastMixSet target gainDb pan muted =>
    refine .hostOnly nowMs sender _ ?_
    split_ifs
    · exact .violation s nowMs sender _
    · refine .trans (.of_eq ?_ ?_) (.relay _ _) <;> rfl
  | broadcastAudition enabled => exact .hostOnly nowMs sender _ (.of_eq rfl rfl)
  | ping nonce sentMs => exact .queue s sender _
  | pong nonce sentMs => exact .update s sender fun _ _ => rfl
  | revoke jti =>
    simp only [ServerCore.handleControl]
    split_ifs
    · exact .violation s nowMs sender _
    · exact .revoke s nowMs jti
  | bye reason =>
    simp only [ServerCore.handleControl, ServerCore.bye]
    split_ifs
    · exact .queued s _
    · exact .refl s
  | setAvatar hash len => exact .setAvatar s nowMs sender hash len
  | avatarChunk hash index total data => exact .avatarChunk s nowMs sender hash index total data
  | avatarRequest hash => exact .avatarRequest s sender hash
  | streamCtl op =>
    refine .hostOnly nowMs sender _ ?_
    split
    · split_ifs
      · exact .violation s nowMs sender _
      · exact .of_eq rfl rfl
    · exact .of_eq rfl rfl
  | recordCtl op => exact .hostOnly nowMs sender _ (.of_eq rfl rfl)
  | setName name =>
    simp only [ServerCore.handleControl, ServerCore.setName]
    split_ifs
    · exact .refl s
    · exact .of_dirty rfl
    · exact .refl s
  | roster _ | stats _ _ _ | streamStatus _ | recordStatus _ _ | broadcastReadiness _
  | serverLog _ => exact .violation s nowMs sender _

theorem Listed.handleBatch (nowMs : UInt64) (sender : MemberId) (msgs : List ControlMsg)
    (s : ServerCore X) : Listed s (handleBatch nowMs sender msgs s).1 := by
  induction msgs generalizing s with
  | nil => exact .refl s
  | cons msg rest ih => exact (Listed.handleControl s nowMs sender msg).trans (ih _)

theorem Listed.takeRejectTurn (s : ServerCore X) (nowMs : UInt64) (src : SocketAddr) :
    Listed s (s.takeRejectTurn nowMs src).1 := by
  simp only [ServerCore.takeRejectTurn]
  split_ifs
  · exact .refl s
  · exact .of_eq rfl rfl
  · exact .of_eq rfl rfl

theorem Listed.versionReject (s : ServerCore X) (nowMs : UInt64) (src : SocketAddr)
    (theirs : UInt16) (noise initPacket : Bytes) :
    Listed s (s.versionReject nowMs src theirs noise initPacket).1 := by
  simp only [ServerCore.versionReject]
  split_ifs
  · exact .refl s
  · exact .takeRejectTurn s nowMs src
  · exact .takeRejectTurn s nowMs src

theorem Listed.capacityReject (s : ServerCore X) (nowMs : UInt64) (src : SocketAddr)
    (responder : Responder X.toCrypto) (initPacket : Bytes) :
    Listed s (s.capacityReject nowMs src responder initPacket).1 := by
  simp only [ServerCore.capacityReject]
  split_ifs <;> exact .takeRejectTurn s nowMs src

theorem Listed.cookieChallenge (s : ServerCore X) (nowMs : UInt64) (src : SocketAddr)
    (initPacket : Bytes) : Listed s (s.cookieChallenge nowMs src initPacket).1 := by
  simp only [ServerCore.cookieChallenge]
  split_ifs
  · exact .refl s
  · exact .of_eq rfl rfl
  · exact .of_eq rfl rfl

theorem dirty_greet (s : ServerCore X) (id : MemberId) :
    (s.greet id).rosterDirty = s.rosterDirty := by
  have hstream : (if s.streamStatus.isEmpty then s
      else s.queue id (.streamStatus s.streamStatus)).rosterDirty = s.rosterDirty := by
    split_ifs <;> rfl
  simp only [greet]
  generalize (if s.streamStatus.isEmpty then s
    else s.queue id (.streamStatus s.streamStatus)) = t at hstream ⊢
  rw [← hstream]
  cases t.broadcastReady with
  | none =>
    simp only
    split_ifs <;> rfl
  | some state =>
    simp only
    split_ifs <;> rfl

theorem Listed.takeSeat (s : ServerCore X) (nowMs : UInt64) (src : SocketAddr) (token : Token)
    (responder : Responder X.toCrypto) (initHash : Digest) (ephemeral : Bytes) :
    Listed s (s.takeSeat nowMs src token responder initHash ephemeral).1 := by
  simp only [ServerCore.takeSeat]
  split
  · exact .refl s
  · rename_i t ht
    have hencoder : Listed s t := by
      unfold ensureBcastEncoder at ht
      split_ifs at ht
      · obtain ⟨encoder, -, rfl⟩ := Option.map_eq_some_iff.mp ht
        exact .of_eq rfl rfl
      · obtain rfl := Option.some.inj ht
        exact .refl s
    refine hencoder.trans ?_
    split
    · refine .of_dirty ?_
      simp only [welcomed]
      rw [dirty_noteMusicianCount, dirty_greet]
      rfl
    · exact .refl t

theorem Listed.admitToken (s : ServerCore X) (nowMs : UInt64) (src : SocketAddr)
    (noise ephemeral : Bytes) (token : Token) (responder : Responder X.toCrypto) :
    Listed s (s.admitToken nowMs src noise ephemeral token responder).1 := by
  simp only [ServerCore.admitToken]
  have havailable : Listed s (s.violationAvailable nowMs token.memberId).1 := by
    simp only [violationAvailable]
    split
    · exact .refl s
    · exact .update s _ fun _ _ => rfl
  split
  · exact .refl s
  · split
    · exact havailable
    · refine havailable.trans ?_
      split
      · exact .refl _
      · split
        · exact .capacityReject _ nowMs src responder _
        · exact .takeSeat _ nowMs src token responder _ ephemeral

theorem Listed.admitInit (s : ServerCore X) (nowMs nowUnix : UInt64) (src : SocketAddr)
    (noise ephemeral : Bytes) : Listed s (s.admitInit nowMs nowUnix src noise ephemeral).1 := by
  simp only [ServerCore.admitInit]
  have hbudget : Listed s (s.initBudgetTake nowMs src).1 := by
    simp only [initBudgetTake]
    split_ifs <;> exact .of_eq rfl rfl
  generalize s.initBudgetTake nowMs src = r at hbudget ⊢
  split_ifs
  · exact hbudget
  · have hread : Listed s { r.1 with initReads := r.1.initReads + 1 } :=
      hbudget.trans (.of_eq rfl rfl)
    refine hread.trans ?_
    split
    · exact .refl _
    · split
      · exact .refl _
      · exact .admitToken _ nowMs src noise ephemeral _ _

theorem Listed.handleTransport (s : ServerCore X) (nowMs : UInt64) (src : SocketAddr)
    (id : MemberId) (counter : UInt64) (ciphertext : Bytes) :
    Listed s (s.handleTransport nowMs src id counter ciphertext).1 := by
  have hopened : Listed s (s.openTransport nowMs src id counter ciphertext).1 := by
    unfold ServerCore.openTransport
    split
    · exact .refl s
    · split_ifs
      · exact .refl s
      · split
        · exact .refl s
        · split
          · exact .update s id fun _ _ => rfl
          · exact .update s id fun m _ => Member.info_takePlain _ _ id
  unfold ServerCore.handleTransport
  generalize s.openTransport nowMs src id counter ciphertext = r at hopened ⊢
  match r with
  | (t, none) => exact hopened
  | (t, some (.error what)) => exact hopened.trans (.violation t nowMs id what)
  | (t, some (.ok none)) => exact hopened
  | (t, some (.ok (some msgs))) =>
    refine (hopened.trans (.handleBatch nowMs id msgs t)).trans ?_
    show Listed _ (ServerCore.flushMemberLink _ nowMs id).1
    unfold flushMemberLink
    split
    · exact .refl _
    · split_ifs
      · exact .update _ id fun m _ => m.info_flush id nowMs
      · exact .refl _

theorem Listed.handleDatagram (s : ServerCore X) (nowMs nowUnix : UInt64) (src : SocketAddr)
    (data ephemeral : Bytes) :
    Listed s (s.handleDatagram nowMs nowUnix src data ephemeral).1 := by
  have hcookie : Listed s (s.cookieRequired nowMs).1 := .of_eq rfl rfl
  unfold ServerCore.handleDatagram
  split
  · split
    · exact .versionReject s nowMs src _ _ data
    · simp only
      split_ifs
      · exact hcookie.trans (.cookieChallenge _ nowMs src data)
      · exact hcookie.trans (.admitInit _ nowMs nowUnix src _ ephemeral)
  · simp only
    split_ifs
    · exact hcookie.trans (.admitInit _ nowMs nowUnix src _ ephemeral)
    · exact hcookie
  · exact .handleTransport s nowMs src _ _ _
  · exact .refl s

theorem Listed.tickAudio (s : ServerCore X) : Listed s s.tickAudio.1 := by
  have hdecoded : ∀ t : ServerCore X, Listed t t.decodeUplinks := by
    intro t
    refine .of_info (entries_map (g := fun _ m =>
      if m.isActive .musician then (m.decodeFrame t.bcastTap).1 else m) (fun id m => ?_)
      fun id => Std.ExtTreeMap.getElem?_map) rfl
    split_ifs <;> rfl
  have hmixed : ∀ t : ServerCore X, Listed t (t.mixBroadcast s.sampleClock) :=
    fun t => .of_eq rfl rfl
  have hmixes : ∀ t : ServerCore X, Listed t (t.sendMixes s.sampleClock).1 := by
    refine fun t => .each t fun id m => ?_
    split_ifs
    · exact m.info_sendMix id _ _
    · rfl
  have hsent : ∀ t : ServerCore X, Listed t t.sendBroadcast.1 := by
    intro t
    unfold sendBroadcast
    split
    · split
      · exact .refl t
      · split
        · exact .of_eq rfl rfl
        · rename_i enc payload _
          have hencoded : Listed t { t with
              bcastEncoder := some enc, bcastEncodes := t.bcastEncodes + 1 } := .of_eq rfl rfl
          refine hencoded.trans (.each _ fun id m => ?_)
          split_ifs
          · exact m.info_sendFrame id _ _ _
          · rfl
    · exact .refl t
  have hclock : Listed s { s with sampleClock := s.sampleClock + UInt64.ofNat tickSamples } :=
    .of_eq rfl rfl
  exact ((((hclock.trans (hdecoded _)).trans (hmixed _)).trans (hmixes _)).trans (hsent _)).trans
    (.of_eq rfl rfl)

theorem Listed.sendStats (s : ServerCore X) (nowMs : UInt64) : Listed s (s.sendStats nowMs) := by
  unfold ServerCore.sendStats
  split
  · have hstamped : Listed s { s with lastStatsMs := nowMs } := .of_eq rfl rfl
    refine hstamped.trans (.each _ fun id m => ?_)
    split_ifs
    · exact Member.info_send _ _ id
    · rfl
  · exact .refl s

theorem Listed.feedServerLogFrom (nowMs : UInt64) (n : ℕ) (s : ServerCore X) :
    Listed s (ServerCore.feedServerLogFrom nowMs n s) := by
  induction n generalizing s with
  | zero => exact .refl s
  | succ n ih =>
    simp only [ServerCore.feedServerLogFrom]
    split
    · rename_i tail line _ _
      split_ifs
      · have hpaid : Listed s { s with
            logBudget := (s.logBudget.take nowMs).1, logTail := some tail.clearDropped } :=
          .of_eq rfl rfl
        exact (hpaid.trans (.queue _ hostMemberId (.serverLog line))).trans (ih _)
      · exact .of_eq rfl rfl
      · exact .refl s
    · exact .refl s

theorem Listed.feedServerLog (s : ServerCore X) (nowMs : UInt64) :
    Listed s (s.feedServerLog nowMs) := by
  unfold ServerCore.feedServerLog
  split_ifs
  · exact .feedServerLogFrom nowMs _ s
  · exact .refl s

theorem Listed.pollLinks (s : ServerCore X) (nowMs : UInt64) :
    Listed s (s.pollLinks nowMs).1 := by
  refine .each s fun id m => ?_
  split_ifs
  · exact m.info_pollLink _ id nowMs
  · rfl

theorem Listed.reap (s : ServerCore X) (nowMs : UInt64) : Listed s (s.reap nowMs) := by
  unfold ServerCore.reap
  split_ifs
  · exact .refl s
  · exact .queued s _

theorem Listed.quietScan (s : ServerCore X) (nowMs : UInt64) : Listed s (s.quietScan nowMs) := by
  simp only [ServerCore.quietScan]
  split_ifs with hmoved
  · exact .of_dirty rfl
  · refine .of_info (fun id => ?_) rfl
    show Option.Rel _ _ (s.members.map _)[id]?
    rw [Std.ExtTreeMap.getElem?_map]
    cases hm : s.members[id]? with
    | none => exact .none
    | some m =>
      refine .some ?_
      have hsame : m.isQuiet nowMs = m.quiet := by
        by_contra hne
        refine hmoved (List.any_eq_true.mpr ⟨(id, m), ?_, ?_⟩)
        · exact Std.ExtTreeMap.mem_toList_iff_getElem?_eq_some.mpr hm
        · exact bne_iff_ne.mpr hne
      exact congrArg (fun quiet => ({ m with quiet } : Member X).info id) hsame

theorem Listed.dropPeer (s : ServerCore X) (addr : SocketAddr) : Listed s (s.dropPeer addr) := by
  unfold ServerCore.dropPeer
  split
  · exact .refl s
  · exact .queued s _

theorem Listed.setBroadcastTap (s : ServerCore X) (on : Bool) :
    Listed s (s.setBroadcastTap on) := by
  unfold ServerCore.setBroadcastTap
  split
  · exact .refl s
  · refine .of_info (entries_map (g := fun _ m =>
      if on then m else { m with levelPeak := X.zero, levelRms := X.zero }) (fun _ m => ?_)
      fun _ => Std.ExtTreeMap.getElem?_map) rfl
    split_ifs <;> rfl

theorem Listed.setStreamStatus (s : ServerCore X) (nowMs : UInt64)
    (destinations : List DestinationStatus) : Listed s (s.setStreamStatus nowMs destinations) := by
  simp only [ServerCore.setStreamStatus]
  split
  · have hset : Listed s { s with
        streamStatus := destinations, lastStreamStatusMs := nowMs } := .of_eq rfl rfl
    exact hset.trans (.relay _ _)
  · exact .of_eq rfl rfl

theorem Listed.setBroadcastReadiness (s : ServerCore X) (state : BroadcastReadiness) :
    Listed s (s.setBroadcastReadiness state) := by
  unfold ServerCore.setBroadcastReadiness
  split
  · exact .refl s
  · have hset : Listed s { s with broadcastReady := some state } := .of_eq rfl rfl
    exact hset.trans (.relay _ _)

theorem Listed.setRecordStatus (s : ServerCore X) (state : RecordingState) (stems : Bool) :
    Listed s (s.setRecordStatus state stems) := by
  unfold ServerCore.setRecordStatus
  split
  · exact .refl s
  · have hset : Listed s { s with recordStatus := state, recordStems := stems } := .of_eq rfl rfl
    exact hset.trans (.relay _ _)

def flushed (s : ServerCore X) : Call → Option (List MemberInfo)
  | .tick nowMs =>
    let t := s.tickAudio.1.sendStats nowMs
    if t.rosterDirty then some t.roster else none
  | _ => none

/-- The roster serialized last, given the one before the run. -/
def lastFlushed : List MemberInfo → ServerCore X → List Call → List MemberInfo
  | last, _, [] => last
  | last, s, c :: rest => lastFlushed ((s.flushed c).getD last) (s.step c) rest

/-- Whatever is not marked to go out shows what went out last. -/
def Fresh (last : List MemberInfo) (s : ServerCore X) : Prop :=
  s.rosterDirty = false → s.roster = last

theorem Listed.fresh {last : List MemberInfo} (h : Listed s s') (hs : s.Fresh last) :
    s'.Fresh last := fun hclean => by
  obtain ⟨hclean', hroster⟩ := h hclean
  exact hroster.trans (hs hclean')

/-- What a tick serializes is the message it relays to everyone who is connected, and a tick that
serializes nothing relays none. -/
theorem flushRoster_tick (s : ServerCore X) (nowMs : UInt64) :
    let t := s.tickAudio.1.sendStats nowMs
    t.flushRoster = (s.flushed (.tick nowMs)).elim t fun roster =>
      { t with rosterDirty := false, rosterEpoch := t.rosterEpoch + 1 }.relay (.roster roster) := by
  simp only [flushed, flushRoster]
  split_ifs
  · rfl
  · rfl

theorem roster_of_flushed {nowMs : UInt64} {roster : List MemberInfo}
    (h : s.flushed (.tick nowMs) = some roster) :
    (s.tickAudio.1.sendStats nowMs).roster = roster := by
  simp only [flushed] at h
  split_ifs at h
  exact Option.some.inj h

theorem Fresh.tick {last : List MemberInfo} (hs : s.Fresh last) (nowMs : UInt64) :
    (s.tick nowMs).1.Fresh ((s.flushed (.tick nowMs)).getD last) := by
  have ht := ((Listed.tickAudio s).trans (.sendStats _ nowMs)).fresh hs
  have hrelays := flushRoster_tick s nowMs
  have hflushed : (s.tickAudio.1.sendStats nowMs).flushRoster.Fresh
      ((s.flushed (.tick nowMs)).getD last) := by
    cases hroster : s.flushed (.tick nowMs) with
    | none =>
      rw [hroster] at hrelays
      rw [hrelays]
      exact ht
    | some roster =>
      have hshown := roster_of_flushed hroster
      rw [hroster] at hrelays
      rw [hrelays]
      generalize s.tickAudio.1.sendStats nowMs = t at hshown ⊢
      -- what goes out is what the entries show, and sending does not change them
      intro _
      have hrelayed : SameInfo t ({ t with
          rosterDirty := false, rosterEpoch := t.rosterEpoch + 1 }.relay (.roster roster)) :=
        entries_relay (s := { t with rosterDirty := false, rosterEpoch := t.rosterEpoch + 1 })
          (fun _ _ => rfl) fun id m => m.info_send _ id
      exact hrelayed.roster.trans hshown
  generalize (s.flushed (.tick nowMs)).getD last = shown at hflushed ⊢
  simp only [ServerCore.tick, tickControl]
  generalize s.tickAudio.1.sendStats nowMs = t at hflushed ⊢
  refine Listed.fresh ?_ hflushed
  exact (((Listed.feedServerLog _ nowMs).trans (.pollLinks _ nowMs)).trans (.reap _ nowMs)).trans
    (.quietScan _ nowMs)

theorem Fresh.step {last : List MemberInfo} (hs : s.Fresh last) {c : Call} (hc : c.running) :
    (s.step c).Fresh ((s.flushed c).getD last) := by
  cases c with
  | handleDatagram nowMs nowUnix src data ephemeral =>
    exact (Listed.handleDatagram s nowMs nowUnix src data ephemeral).fresh hs
  | tick nowMs => exact hs.tick nowMs
  | shutdown nowMs reason => exact absurd hc Bool.false_ne_true
  | dropPeer addr => exact (Listed.dropPeer s addr).fresh hs
  | setBroadcastTap on => exact (Listed.setBroadcastTap s on).fresh hs
  | setStreamStatus nowMs destinations =>
    exact (Listed.setStreamStatus s nowMs destinations).fresh hs
  | setBroadcastReadiness state => exact (Listed.setBroadcastReadiness s state).fresh hs
  | setRecordStatus state stems => exact (Listed.setRecordStatus s state stems).fresh hs
  | events => exact (Listed.of_eq rfl rfl).fresh hs
  | log line => exact (Listed.of_eq rfl rfl).fresh hs

theorem Fresh.run {last : List MemberInfo} (hs : s.Fresh last) {calls : List Call}
    (hcalls : ∀ c ∈ calls, c.running) :
    (Runs.run ServerCore.step s calls).Fresh (lastFlushed last s calls) := by
  induction calls generalizing s last with
  | nil => exact hs
  | cons c rest ih =>
    obtain ⟨hc, hrest⟩ := List.forall_mem_cons.mp hcalls
    exact ih (hs.step hc) hrest

end ServerCore
end JamStream.Session
