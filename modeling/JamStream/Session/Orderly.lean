import JamStream.Session.Refinement

/-! Every call of the core but the draining of its events refines the room, keeps the
tally, and leaves nothing of a connection behind. A call that releases control
messages needs them to come from the connected for the last of these. -/

namespace JamStream.Session
open Protocol Engine Foundations Relation
variable {X : Externals}

namespace ServerCore
variable {s s' s'' : ServerCore X}

section Admission

theorem Calm.takeRejectTurn (s : ServerCore X) (nowMs : UInt64) (src : SocketAddr) :
    Calm s (s.takeRejectTurn nowMs src).1 := by
  simp only [ServerCore.takeRejectTurn]
  split_ifs
  · exact .refl s
  · exact .of_eq rfl rfl rfl rfl rfl rfl
  · exact .of_eq rfl rfl rfl rfl rfl rfl

theorem Calm.versionReject (s : ServerCore X) (nowMs : UInt64) (src : SocketAddr)
    (theirs : UInt16) (noise initPacket : Bytes) :
    Calm s (s.versionReject nowMs src theirs noise initPacket).1 := by
  simp only [ServerCore.versionReject]
  split_ifs
  · exact .refl s
  · exact .takeRejectTurn s nowMs src
  · exact .takeRejectTurn s nowMs src

theorem Calm.capacityReject (s : ServerCore X) (nowMs : UInt64) (src : SocketAddr)
    (responder : Responder X.toCrypto) (initPacket : Bytes) :
    Calm s (s.capacityReject nowMs src responder initPacket).1 := by
  simp only [ServerCore.capacityReject]
  split_ifs <;> exact .takeRejectTurn s nowMs src

theorem Calm.initBudgetTake (s : ServerCore X) (nowMs : UInt64) (src : SocketAddr) :
    Calm s (s.initBudgetTake nowMs src).1 := by
  simp only [ServerCore.initBudgetTake]
  split_ifs <;> exact .of_eq rfl rfl rfl rfl rfl rfl

theorem Calm.cookieChallenge (s : ServerCore X) (nowMs : UInt64) (src : SocketAddr)
    (initPacket : Bytes) : Calm s (s.cookieChallenge nowMs src initPacket).1 := by
  simp only [ServerCore.cookieChallenge]
  split_ifs
  · exact .refl s
  · exact .of_eq rfl rfl rfl rfl rfl rfl
  · exact .of_eq rfl rfl rfl rfl rfl rfl

theorem Calm.violationAvailable (s : ServerCore X) (nowMs : UInt64) (id : MemberId) :
    Calm s (s.violationAvailable nowMs id).1 := by
  simp only [ServerCore.violationAvailable]
  split
  · exact .refl s
  · refine .update s id fun m _ => ?_
    exact ⟨rfl, fun _ h => { h with }⟩

theorem Calm.greet (s : ServerCore X) (id : MemberId) : Calm s (s.greet id) := by
  have hstream : Calm s (if s.streamStatus.isEmpty then s
      else s.queue id (.streamStatus s.streamStatus)) := by
    split_ifs
    · exact .refl s
    · exact .queue s id _
  simp only [ServerCore.greet]
  generalize (if s.streamStatus.isEmpty then s
    else s.queue id (.streamStatus s.streamStatus)) = t at hstream ⊢
  refine hstream.trans ?_
  cases t.broadcastReady with
  | none =>
    simp only
    split_ifs
    · exact .refl t
    · exact .queue t id _
  | some state =>
    simp only
    split_ifs
    · exact .queue t id _
    · exact (Calm.queue t id _).trans (.queue _ id _)

theorem room_seat (s : ServerCore X) (id : MemberId) (m : Member X) :
    (s.seat id m).room = s.room.sit id m.seat := by
  refine Room.ext ?_ rfl rfl
  funext id'
  rw [Room.sit_seats]
  show (s.members.insert id m)[id']?.map Member.seat = _
  rw [OrderedMap.getElem?_insert]
  by_cases hid : id = id'
  · rw [if_pos hid, if_pos hid.symm]
    rfl
  · rw [if_neg hid, if_neg (Ne.symm hid)]
    rfl

theorem Released.seat (hs : s.Released) (id : MemberId) {m : Member X} (hconn : m.connected) :
    (s.seat id m).Released where
  cleared id' m' hm' hgone := by
    have hafter : (s.members.insert id m)[id']? = some m' := hm'
    rw [OrderedMap.getElem?_insert] at hafter
    split_ifs at hafter
    · obtain rfl := Option.some.inj hafter
      exact absurd (hgone.symm.trans hconn) Bool.false_ne_true
    · exact hs.cleared id' m' hafter hgone
  audition hhost := by
    show (if id = hostMemberId then false else s.audition) = false
    split_ifs with hid
    · rfl
    · refine hs.audition ?_
      have hafter : (s.members.insert id m)[hostMemberId]?.any Member.connected = false := hhost
      rwa [OrderedMap.getElem?_insert, if_neg hid] at hafter

theorem Orderly.welcomed (s : ServerCore X) (nowMs : UInt64) (src : SocketAddr) (token : Token)
    (session : Protocol.Session X.toCrypto) (cache : RespCache)
    (media : Option X.Encoder × Option X.Decoder)
    (hissued : Issued X s.cfg token.memberId token.jti) (hrevoked : token.jti ∉ s.revoked)
    (hroom : s.connectedIn token.role (some token.memberId) < s.cfg.cap token.role) :
    Orderly s (s.welcomed nowMs src token session cache media) := by
  simp only [ServerCore.welcomed]
  generalize hm : Member.join s.members[token.memberId]? nowMs src token session cache media.1
    media.2 = m
  have hseat : m.seat = { role := token.role, key := token.jti, taken := true } := by
    rw [← hm]
    rfl
  have hconn : m.connected := congrArg Seat.taken hseat
  have hseated : Silent s (s.seat token.memberId m) := .of_eq rfl rfl rfl
  have hgreeted := Calm.greet
    ((s.seat token.memberId m).emit (.memberJoined token.memberId m.name)).queueRoster token.memberId
  refine .note ((hseated.emitRoster rfl).trans hgreeted.toSilent) ?_ fun hs => ?_
  rotate_left
  · refine hgreeted.released ?_
    exact (hs.seat token.memberId hconn).of_eq rfl rfl
  rw [hgreeted.room]
  have hsit : (((s.seat token.memberId m).emit
      (.memberJoined token.memberId m.name)).queueRoster).room = s.room.sit token.memberId m.seat :=
    room_seat s token.memberId m
  rw [hsit, hseat]
  refine .enter s.room token.memberId _ hissued (fun h => hrevoked (Finset.mem_coe.mp h)) ?_
  rw [connectedIn_eq] at hroom
  convert hroom using 3
  ext id
  exact ⟨fun h => congrArg some h.symm, fun h => (Option.some.inj h).symm⟩

theorem Orderly.takeSeat (s : ServerCore X) (nowMs : UInt64) (src : SocketAddr) (token : Token)
    (responder : Responder X.toCrypto) (initHash : Digest) (ephemeral : Bytes)
    (hissued : Issued X s.cfg token.memberId token.jti) (hrevoked : token.jti ∉ s.revoked)
    (hroom : s.connectedIn token.role (some token.memberId) < s.cfg.cap token.role) :
    Orderly s (s.takeSeat nowMs src token responder initHash ephemeral).1 := by
  simp only [ServerCore.takeSeat]
  have hencoder : ∀ t, s.ensureBcastEncoder token.role = some t →
      t.cfg = s.cfg ∧ t.members = s.members ∧ t.revoked = s.revoked ∧ Calm s t := by
    intro t ht
    unfold ensureBcastEncoder at ht
    split_ifs at ht
    · obtain ⟨encoder, -, rfl⟩ := Option.map_eq_some_iff.mp ht
      exact ⟨rfl, rfl, rfl, .of_eq rfl rfl rfl rfl rfl rfl⟩
    · obtain rfl := Option.some.inj ht
      exact ⟨rfl, rfl, rfl, .refl s⟩
  split
  · exact .refl s
  · rename_i t ht
    obtain ⟨hcfg, hmembers, hrev, hcalm⟩ := hencoder t ht
    refine hcalm.orderly.trans ?_
    split
    · refine .welcomed t nowMs src token _ _ _ (hcfg ▸ hissued) (hrev ▸ hrevoked) ?_
      unfold connectedIn at hroom ⊢
      rwa [hmembers, hcfg]
    · exact .refl t

theorem Orderly.admitToken (s : ServerCore X) (nowMs : UInt64) (src : SocketAddr)
    (noise ephemeral : Bytes) (token : Token) (responder : Responder X.toCrypto)
    (hissued : Issued X s.cfg token.memberId token.jti) :
    Orderly s (s.admitToken nowMs src noise ephemeral token responder).1 := by
  simp only [ServerCore.admitToken]
  have hbudget := Calm.violationAvailable s nowMs token.memberId
  have hrev : (s.violationAvailable nowMs token.memberId).1.revoked = s.revoked :=
    Finset.coe_injective (congrArg Room.barred hbudget.room)
  split
  · exact .refl s
  · rename_i hrevoked
    split
    · exact hbudget.orderly
    · refine hbudget.orderly.trans ?_
      split
      · exact .refl _
      · split_ifs with hfull
        · exact (Calm.capacityReject _ nowMs src responder _).orderly
        · refine .takeSeat _ nowMs src token responder _ ephemeral ?_ ?_ ?_
          · rwa [hbudget.cfg]
          · rwa [hrev]
          · rw [hbudget.cfg]
            exact not_le.mp hfull

theorem Orderly.admitInit (s : ServerCore X) (nowMs nowUnix : UInt64) (src : SocketAddr)
    (noise ephemeral : Bytes) : Orderly s (s.admitInit nowMs nowUnix src noise ephemeral).1 := by
  simp only [ServerCore.admitInit]
  have hbudget := Calm.initBudgetTake s nowMs src
  generalize s.initBudgetTake nowMs src = r at hbudget ⊢
  split_ifs
  · exact hbudget.orderly
  · have hread : Calm s { r.1 with initReads := r.1.initReads + 1 } :=
      hbudget.trans (.of_eq rfl rfl rfl rfl rfl rfl)
    refine hread.orderly.trans ?_
    split
    · exact .refl _
    · split
      · exact .refl _
      · rename_i hp responder _ _ hverified
        exact .admitToken _ nowMs src noise ephemeral hp.token responder
          ⟨hp.token, hp.signature, nowUnix, hverified, rfl, rfl⟩

end Admission

section Tick

theorem seat_sendFrame (m : Member X) (id : MemberId) (timestamp : UInt64)
    (duration : FrameDuration) (payload : Bytes) :
    (m.sendFrame id timestamp duration payload).1.seat = m.seat := Member.seat_post _ id _

theorem seat_sendMix (m : Member X) (id : MemberId) (clock : UInt64) (pcm : Stereo X.toAudio) :
    (m.sendMix id clock pcm).1.seat = m.seat := by
  unfold Member.sendMix
  split
  · rfl
  · split
    · rfl
    · exact seat_sendFrame _ id clock _ _

theorem seat_feedAvatar (cache : AvatarCache) (id : MemberId) (n fed : ℕ) (m : Member X) :
    (Member.feedAvatar cache id n fed m).1.seat = m.seat := by
  induction n generalizing fed m with
  | zero => rfl
  | succ n ih =>
    unfold Member.feedAvatar
    split
    · split
      · rfl
      · split
        · exact (ih _ _).trans (Member.seat_send _ _)
        · exact ih _ _
    · rfl

theorem seat_pollLink (m : Member X) (cache : AvatarCache) (id : MemberId) (nowMs : UInt64) :
    (m.pollLink cache id nowMs).1.seat = m.seat :=
  (Member.seat_flush _ id nowMs).trans (seat_feedAvatar cache id _ _ m)

theorem connected_of_isActive {m : Member X} {role : Role} (h : m.isActive role) : m.connected :=
  (Bool.and_eq_true_iff.mp h).1

theorem Calm.decodeUplinks (s : ServerCore X) : Calm s s.decodeUplinks := by
  refine .of_entries (entries_map (g := fun _ m =>
    if m.isActive .musician then (m.decodeFrame s.bcastTap).1 else m) (fun id m => ?_)
    fun id => Std.ExtTreeMap.getElem?_map) rfl rfl rfl rfl rfl
  split_ifs with hactive
  · exact .of_connected (connected_of_isActive hactive) rfl
  · exact .refl m

theorem Calm.mixBroadcast (s : ServerCore X) (clock : UInt64) :
    Calm s (s.mixBroadcast clock) := .of_eq rfl rfl rfl rfl rfl rfl

theorem Calm.sendMixes (s : ServerCore X) (clock : UInt64) : Calm s (s.sendMixes clock).1 := by
  refine .each s fun id m => ?_
  split_ifs with hactive
  · exact .of_connected (connected_of_isActive hactive) (seat_sendMix m id clock _)
  · exact .refl m

theorem Calm.sendBroadcast (s : ServerCore X) : Calm s s.sendBroadcast.1 := by
  unfold ServerCore.sendBroadcast
  split
  · split
    · exact .refl s
    · split
      · exact .of_eq rfl rfl rfl rfl rfl rfl
      · rename_i enc payload _
        have hencoded : Calm s { s with
            bcastEncoder := some enc, bcastEncodes := s.bcastEncodes + 1 } :=
          .of_eq rfl rfl rfl rfl rfl rfl
        refine hencoded.trans (.each _ fun id m => ?_)
        split_ifs with hactive
        · exact .of_connected (connected_of_isActive hactive) (seat_sendFrame m id _ _ _)
        · exact .refl m
  · exact .refl s

theorem Calm.tickAudio (s : ServerCore X) : Calm s s.tickAudio.1 := by
  have hclock : Calm s { s with sampleClock := s.sampleClock + UInt64.ofNat tickSamples } :=
    .of_eq rfl rfl rfl rfl rfl rfl
  have hmixed := (hclock.trans (.decodeUplinks _)).trans (.mixBroadcast _ s.sampleClock)
  exact ((hmixed.trans (.sendMixes _ s.sampleClock)).trans (.sendBroadcast _)).trans
    (.of_eq rfl rfl rfl rfl rfl rfl)

theorem Calm.sendStats (s : ServerCore X) (nowMs : UInt64) : Calm s (s.sendStats nowMs) := by
  unfold ServerCore.sendStats
  split
  · have hstamped : Calm s { s with lastStatsMs := nowMs } := .of_eq rfl rfl rfl rfl rfl rfl
    refine hstamped.trans (.each _ fun id m => ?_)
    split_ifs with hactive
    · exact .of_connected (connected_of_isActive hactive) (Member.seat_send _ _)
    · exact .refl m
  · exact .refl s

theorem Calm.flushRoster (s : ServerCore X) : Calm s s.flushRoster := by
  unfold ServerCore.flushRoster
  split_ifs
  · have hcleared : Calm s { s with
        rosterDirty := false, rosterEpoch := s.rosterEpoch + 1 } := .of_eq rfl rfl rfl rfl rfl rfl
    exact hcleared.trans (.relay _ _)
  · exact .refl s

theorem Calm.feedServerLogFrom (nowMs : UInt64) (n : ℕ) (s : ServerCore X) :
    Calm s (ServerCore.feedServerLogFrom nowMs n s) := by
  induction n generalizing s with
  | zero => exact .refl s
  | succ n ih =>
    simp only [ServerCore.feedServerLogFrom]
    split
    · rename_i tail line _ _
      split_ifs
      · have hpaid : Calm s { s with
            logBudget := (s.logBudget.take nowMs).1, logTail := some tail.clearDropped } :=
          .of_eq rfl rfl rfl rfl rfl rfl
        exact (hpaid.trans (.queue _ hostMemberId (.serverLog line))).trans (ih _)
      · exact .of_eq rfl rfl rfl rfl rfl rfl
      · exact .refl s
    · exact .refl s

theorem Calm.feedServerLog (s : ServerCore X) (nowMs : UInt64) :
    Calm s (s.feedServerLog nowMs) := by
  unfold ServerCore.feedServerLog
  split_ifs
  · exact .feedServerLogFrom nowMs _ s
  · exact .refl s

theorem Calm.pollLinks (s : ServerCore X) (nowMs : UInt64) : Calm s (s.pollLinks nowMs).1 := by
  refine .each s fun id m => ?_
  split_ifs with hconn
  · exact .of_connected hconn (seat_pollLink m _ id nowMs)
  · exact .refl m

theorem room_disconnectAll (s : ServerCore X) (ids : List MemberId) :
    (s.disconnectAll ids).room = ids.foldl Room.leave s.room := by
  induction ids generalizing s with
  | nil => rfl
  | cons id rest ih =>
    refine (ih _).trans ?_
    rw [List.foldl_cons, ← room_disconnectMember]
    rfl

theorem Silent.disconnectAll (s : ServerCore X) (ids : List MemberId) :
    Silent s (s.disconnectAll ids) := by
  induction ids generalizing s with
  | nil => exact .refl s
  | cons id rest ih =>
    exact ((Silent.disconnectMember s id).trans (.emit _ rfl)).trans (ih _)

theorem Released.disconnectAll (hs : s.Released) (ids : List MemberId) :
    (s.disconnectAll ids).Released := by
  induction ids generalizing s with
  | nil => exact hs
  | cons id rest ih =>
    refine ih ?_
    exact (hs.disconnectMember id).of_eq rfl rfl

theorem Orderly.reap (s : ServerCore X) (nowMs : UInt64) : Orderly s (s.reap nowMs) := by
  unfold ServerCore.reap
  split_ifs
  · exact .refl s
  · refine .note ((Silent.disconnectAll s _).trans (.of_eq rfl rfl rfl)) ?_ fun hs =>
      (hs.disconnectAll (s.gone nowMs)).of_eq rfl rfl
    have hroom : (s.disconnectAll (s.gone nowMs)).queueRoster.room =
        (s.gone nowMs).foldl Room.leave s.room := room_disconnectAll s _
    rw [hroom]
    exact .leave s.room (s.gone nowMs)

theorem Calm.quietScan (s : ServerCore X) (nowMs : UInt64) : Calm s (s.quietScan nowMs) := by
  have hscan : Calm s { s with
      members := s.members.map fun _ m => { m with quiet := m.isQuiet nowMs } } :=
    .map s fun _ _ => ⟨rfl, fun _ h => { h with }⟩
  simp only [ServerCore.quietScan]
  split_ifs
  · exact hscan.trans (.of_eq rfl rfl rfl rfl rfl rfl)
  · exact hscan

theorem Orderly.tickControl (s : ServerCore X) (nowMs : UInt64) :
    Orderly s (s.tickControl nowMs).1 := by
  have hlinks := (((Calm.sendStats s nowMs).trans (.flushRoster _)).trans
    (.feedServerLog _ nowMs)).trans (.pollLinks _ nowMs)
  simp only [ServerCore.tickControl]
  generalize (((s.sendStats nowMs).flushRoster).feedServerLog nowMs).pollLinks nowMs = r at hlinks ⊢
  exact (hlinks.orderly.trans (.reap r.1 nowMs)).trans (Calm.quietScan _ nowMs).orderly

theorem Orderly.tick (s : ServerCore X) (nowMs : UInt64) : Orderly s (s.tick nowMs).1 := by
  simp only [ServerCore.tick]
  exact (Calm.tickAudio s).orderly.trans (.tickControl s.tickAudio.1 nowMs)

end Tick

section Calls

theorem seat_takePlain (m : Member X) (plain : Bytes) : (m.takePlain plain).1.seat = m.seat := by
  unfold Member.takePlain
  split
  · rfl
  · split_ifs
    · rfl
    · split <;> rfl
    · split <;> rfl
    · rfl

theorem Calm.openTransport (s : ServerCore X) (nowMs : UInt64) (src : SocketAddr)
    (id : MemberId) (counter : UInt64) (ciphertext : Bytes) :
    Calm s (s.openTransport nowMs src id counter ciphertext).1 := by
  unfold ServerCore.openTransport
  split
  · exact .refl s
  · rename_i m hm
    split_ifs with hgone
    · exact .refl s
    · have hconn : m.connected := by simpa using hgone
      have hsteady : ∀ f : Member X → Member X, (∀ m, (f m).seat = m.seat) →
          Calm s (s.update id f) := fun f hf => .update s id fun m' hm' => by
        obtain rfl := Option.some.inj (hm.symm.trans hm')
        exact .of_connected hconn (hf m)
      split
      · exact .refl s
      · split
        · exact hsteady _ fun _ => rfl
        · exact hsteady _ fun m => seat_takePlain _ _

theorem Orderly.handleTransport {nowMs : UInt64} {src : SocketAddr} {id : MemberId}
    {counter : UInt64} {ciphertext : Bytes}
    (h : ∀ msgs, (s.openTransport nowMs src id counter ciphertext).2 ≠ some (.ok (some msgs))) :
    Orderly s (s.handleTransport nowMs src id counter ciphertext).1 := by
  have hopened := Calm.openTransport s nowMs src id counter ciphertext
  unfold ServerCore.handleTransport
  generalize s.openTransport nowMs src id counter ciphertext = r at hopened h ⊢
  match r with
  | (t, none) => exact hopened.orderly
  | (t, some (.error what)) => exact hopened.orderly.trans (.violation t nowMs id what)
  | (t, some (.ok none)) => exact hopened.orderly
  | (t, some (.ok (some msgs))) => exact absurd rfl (h msgs)

theorem Orderly.handleDatagram {nowMs nowUnix : UInt64} {src : SocketAddr} {data ephemeral : Bytes}
    (h : s.batch (.handleDatagram nowMs nowUnix src data ephemeral) = none) :
    Orderly s (s.handleDatagram nowMs nowUnix src data ephemeral).1 := by
  have hcookie : Orderly s (s.cookieRequired nowMs).1 :=
    Calm.orderly (.of_eq rfl rfl rfl rfl rfl rfl)
  unfold ServerCore.handleDatagram
  split
  · rename_i version noise _
    split
    · exact (Calm.versionReject s nowMs src version noise data).orderly
    · simp only
      split_ifs
      · exact hcookie.trans (Calm.cookieChallenge _ nowMs src data).orderly
      · exact hcookie.trans (.admitInit _ nowMs nowUnix src noise ephemeral)
  · rename_i cookie version noise _
    simp only
    split_ifs
    · exact hcookie.trans (.admitInit _ nowMs nowUnix src noise ephemeral)
    · exact hcookie
  · rename_i id counter ciphertext hparse
    refine .handleTransport fun msgs hopen => ?_
    simp only [batch, hparse] at h
    generalize s.openTransport nowMs src id counter ciphertext = r at h hopen
    obtain ⟨t, opened⟩ := r
    cases hopen
    exact Option.some_ne_none _ h
  · exact .refl s

theorem Orderly.dropPeer (s : ServerCore X) (addr : SocketAddr) : Orderly s (s.dropPeer addr) := by
  unfold ServerCore.dropPeer
  split
  · exact .refl s
  · rename_i id _ _
    refine { Refines.leave s id rfl with released := fun hs => .note ?_ }
    exact (hs.disconnectMember id).of_eq rfl rfl

theorem shutdown_departures (nowMs : UInt64) (reason : String) (ids : List MemberId)
    (r : ServerCore X × Outgoing) :
    let r' := ids.foldl (fun (r : ServerCore X × Outgoing) id =>
      let f := r.1.farewell nowMs id reason
      ((f.1.disconnectMember id).emit (.memberDisconnected id), r.2 ++ f.2)) r
    Silent r.1 r'.1 ∧ r'.1.room = ids.foldl Room.leave r.1.room ∧
      (r.1.Released → r'.1.Released) := by
  induction ids generalizing r with
  | nil => exact ⟨.refl r.1, rfl, id⟩
  | cons id rest ih =>
    have hfarewell := Calm.farewell r.1 nowMs id reason
    obtain ⟨hsilent, hroom, hreleased⟩ := ih
      (((r.1.farewell nowMs id reason).1.disconnectMember id).emit (.memberDisconnected id),
        r.2 ++ (r.1.farewell nowMs id reason).2)
    refine ⟨((hfarewell.toSilent.trans (.disconnectMember _ id)).trans (.emit _ rfl)).trans hsilent,
      hroom.trans ?_, fun hs => hreleased ?_⟩
    · rw [List.foldl_cons, ← hfarewell.room, ← room_disconnectMember]
      rfl
    · exact ((hfarewell.released hs).disconnectMember id).of_eq rfl rfl

theorem Orderly.shutdown (s : ServerCore X) (nowMs : UInt64) (reason : String) :
    Orderly s (s.shutdown nowMs reason).1 := by
  simp only [ServerCore.shutdown]
  have hfed := Calm.feedServerLog s nowMs
  generalize s.feedServerLog nowMs = t at hfed ⊢
  refine hfed.orderly.trans ?_
  obtain ⟨hsilent, hroom, hreleased⟩ := shutdown_departures nowMs reason
    ((t.members.toList.filter fun e => e.2.connected).map Prod.fst) (t, [])
  refine .note hsilent ?_ hreleased
  rw [hroom]
  exact .leave t.room _

theorem Calm.setBroadcastTap (s : ServerCore X) (on : Bool) : Calm s (s.setBroadcastTap on) := by
  unfold ServerCore.setBroadcastTap
  split
  · exact .refl s
  · refine .of_entries (entries_map (g := fun _ m =>
      if on then m else { m with levelPeak := X.zero, levelRms := X.zero }) (fun _ m => ?_)
      fun _ => Std.ExtTreeMap.getElem?_map) rfl rfl rfl rfl rfl
    split_ifs
    · exact .refl m
    · exact ⟨rfl, fun _ h => { h with }⟩

theorem Calm.setStreamStatus (s : ServerCore X) (nowMs : UInt64)
    (destinations : List DestinationStatus) : Calm s (s.setStreamStatus nowMs destinations) := by
  simp only [ServerCore.setStreamStatus]
  split
  · have hset : Calm s { s with
        streamStatus := destinations, lastStreamStatusMs := nowMs } := .of_eq rfl rfl rfl rfl rfl rfl
    exact hset.trans (.relay _ _)
  · exact .of_eq rfl rfl rfl rfl rfl rfl

theorem Calm.setBroadcastReadiness (s : ServerCore X) (state : BroadcastReadiness) :
    Calm s (s.setBroadcastReadiness state) := by
  unfold ServerCore.setBroadcastReadiness
  split
  · exact .refl s
  · have hset : Calm s { s with broadcastReady := some state } := .of_eq rfl rfl rfl rfl rfl rfl
    exact hset.trans (.relay _ _)

theorem Calm.setRecordStatus (s : ServerCore X) (state : RecordingState) (stems : Bool) :
    Calm s (s.setRecordStatus state stems) := by
  unfold ServerCore.setRecordStatus
  split
  · exact .refl s
  · have hset : Calm s { s with recordStatus := state, recordStems := stems } :=
      .of_eq rfl rfl rfl rfl rfl rfl
    exact hset.trans (.relay _ _)

theorem Calm.of_batch {c : Call} {t : ServerCore X} {nowMs : UInt64} {id : MemberId}
    {msgs : List ControlMsg} (h : s.batch c = some (t, nowMs, id, msgs)) : Calm s t := by
  cases c with
  | handleDatagram now nowUnix src data ephemeral =>
    simp only [batch] at h
    split at h
    · rename_i sender counter ciphertext hparse
      have hopened := Calm.openTransport s now src sender counter ciphertext
      generalize s.openTransport now src sender counter ciphertext = r at h hopened
      split at h
      · obtain ⟨rfl, -⟩ := Prod.mk.inj (Option.some.inj h)
        exact hopened
      · exact absurd h (Option.some_ne_none _).symm
    · exact absurd h (Option.some_ne_none _).symm
  | _ => exact absurd h (Option.some_ne_none _).symm

theorem step_of_batch {t : ServerCore X} {c : Call} {nowMs : UInt64} {id : MemberId}
    {msgs : List ControlMsg} (h : s.batch c = some (t, nowMs, id, msgs)) :
    s.step c = ((handleBatch nowMs id msgs t).1.flushMemberLink nowMs id).1 := by
  cases c with
  | handleDatagram now nowUnix src data ephemeral =>
    simp only [batch] at h
    simp only [step, call, ServerCore.handleDatagram]
    split at h
    · rename_i sender counter ciphertext hparse
      split at h
      · rename_i u opened hopen
        obtain ⟨rfl, rfl, rfl, rfl⟩ := Option.some.inj h
        simp only [hparse, ServerCore.handleTransport, hopen]
        rfl
      · exact absurd h (Option.some_ne_none _).symm
    · exact absurd h (Option.some_ne_none _).symm
  | _ => exact absurd h (Option.some_ne_none _).symm

theorem Orderly.step {c : Call} (hc : c ≠ .events) (h : s.batch c = none) :
    Orderly s (s.step c) := by
  cases c with
  | handleDatagram nowMs nowUnix src data ephemeral => exact .handleDatagram h
  | tick nowMs => exact .tick s nowMs
  | shutdown nowMs reason => exact .shutdown s nowMs reason
  | dropPeer addr => exact .dropPeer s addr
  | setBroadcastTap on => exact (Calm.setBroadcastTap s on).orderly
  | setStreamStatus nowMs destinations => exact (Calm.setStreamStatus s nowMs destinations).orderly
  | setBroadcastReadiness state => exact (Calm.setBroadcastReadiness s state).orderly
  | setRecordStatus state stems => exact (Calm.setRecordStatus s state stems).orderly
  | events => exact absurd rfl hc
  | log line => exact Calm.orderly (.of_eq rfl rfl rfl rfl rfl rfl)

theorem Refines.step (s : ServerCore X) {c : Call} (hc : c ≠ .events) : Refines s (s.step c) := by
  cases h : s.batch c with
  | none => exact (Orderly.step hc h).toRefines
  | some released =>
    obtain ⟨t, nowMs, id, msgs⟩ := released
    rw [step_of_batch h]
    exact ((Calm.of_batch h).orderly.toRefines.trans (.handleBatch nowMs id msgs t)).trans
      (Calm.flushMemberLink _ nowMs id).orderly.toRefines

theorem step_room (s : ServerCore X) (c : Call) :
    (s.step c).cfg = s.cfg ∧ ReflTransGen (RoomStep X s.cfg) s.room (s.step c).room := by
  by_cases hc : c = .events
  · rw [hc]
    exact ⟨rfl, .refl⟩
  · exact ⟨(Refines.step s hc).cfg, (Refines.step s hc).steps⟩

end Calls

end ServerCore
end JamStream.Session
