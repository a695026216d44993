import JamStream.Session.Transfer

/-! What goes up a client's link, whatever the client does: the link and the far end stay two
ends of one line, and a client that has joined keeps what its link has taken until it is no
longer joined. -/

namespace JamStream.Session
open Protocol Foundations Runs
open Std (ExtTreeMap)
variable {X : Externals}

namespace ClientCore
variable {c c' c'' : ClientCore}

structure Stays (c c' : ClientCore) : Prop where
  speaks : Says c c'
  state : c'.state = c.state

theorem Stays.trans (h : Stays c c') (h' : Stays c' c'') : Stays c c'' :=
  ⟨h.speaks.trans h'.speaks, h'.state.trans h.state⟩

theorem Stays.silent (hlink : c'.link = c.link) (htaken : c'.taken = c.taken)
    (hstate : c'.state = c.state) : Stays c c' := ⟨.silent hlink htaken, hstate⟩

theorem Stays.refl (c : ClientCore) : Stays c c := .silent rfl rfl rfl

theorem Stays.offer (c : ClientCore) (msg : ControlMsg) : Stays c (c.offer msg) := by
  refine ⟨.offer c msg, ?_⟩
  unfold ClientCore.offer
  rcases c.link.send msg with e | link <;> rfl

theorem Stays.foldl {α : Type} {f : ClientCore → α → ClientCore} (hf : ∀ c a, Stays c (f c a))
    (xs : List α) (c : ClientCore) : Stays c (xs.foldl f c) := by
  induction xs generalizing c with
  | nil => exact .refl c
  | cons x xs ih => exact (hf c x).trans (ih _)

theorem Stays.announce (c : ClientCore) (member : MemberId) (hash : AvatarHash) :
    Stays c (c.announce member hash) := by
  unfold ClientCore.announce
  split_ifs
  · exact .refl c
  · exact .silent rfl rfl rfl

theorem Stays.syncAvatar (c : ClientCore) (mi : MemberInfo) : Stays c (c.syncAvatar mi) := by
  unfold ClientCore.syncAvatar
  rcases mi.avatarHash with _ | hash
  · exact .silent rfl rfl rfl
  · simp only
    split_ifs
    · have htouched : Stays c { c with avatarCache := c.avatarCache.touch hash } := .silent rfl rfl rfl
      exact htouched.trans (.announce _ _ _)
    · exact .refl c
    · have hasked : Stays c { c with avatarRequested := insert hash c.avatarRequested } :=
        .silent rfl rfl rfl
      exact hasked.trans (.offer _ _)

theorem Stays.handleAvatarChunk (X : Externals) (c : ClientCore) (hash : AvatarHash)
    (index total : UInt16) (data : Bytes) :
    Stays c (c.handleAvatarChunk X hash index total data) := by
  simp only [ClientCore.handleAvatarChunk]
  split
  · exact .silent rfl rfl rfl
  · split
    · exact .silent rfl rfl rfl
    · exact .silent rfl rfl rfl
    · rename_i bytes _
      have hkept : Stays c { c with
          avatarRx := none
          avatarRequested := c.avatarRequested.erase hash
          avatarCache := c.avatarCache.insert hash bytes c.avatarPins } := .silent rfl rfl rfl
      exact hkept.trans (.foldl (fun c (m : MemberInfo) => .announce c m.id hash) _ _)

theorem Stays.handleControl (X : Externals) (c : ClientCore) (nowMs : UInt64) {msg : ControlMsg}
    (hmsg : ∀ reason, msg ≠ .bye reason) : Stays c (c.handleControl X nowMs msg) := by
  cases msg with
  | roster members =>
    have hpruned : Stays c { c with
        avatarAnnounced := c.avatarAnnounced.filter fun id _ => members.any fun m => m.id = id } :=
      .silent rfl rfl rfl
    exact (hpruned.trans (.foldl .syncAvatar members _)).trans (.silent rfl rfl rfl)
  | ping nonce sentMs => exact .offer c _
  | bye reason => exact absurd rfl (hmsg reason)
  | avatarRequest hash =>
    show Stays c (c.avatarRequest hash)
    unfold ClientCore.avatarRequest
    split_ifs
    · exact .silent rfl rfl rfl
    · exact .refl c
  | avatarChunk hash index total data => exact .handleAvatarChunk X c hash index total data
  | _ => exact .silent rfl rfl rfl

theorem Says.handleAll (X : Externals) (nowMs : UInt64) (msgs : List ControlMsg) (c : ClientCore) :
    Says c (msgs.foldl (fun c msg => c.handleControl X nowMs msg) c) := by
  induction msgs generalizing c with
  | nil => exact .silent rfl rfl
  | cons msg rest ih => exact (Says.handleControl X c nowMs msg).trans (ih _)

theorem Stays.handleAll (X : Externals) (nowMs : UInt64) {msgs : List ControlMsg}
    (hmsgs : ∀ reason, ControlMsg.bye reason ∉ msgs) (c : ClientCore) :
    Stays c (msgs.foldl (fun c msg => c.handleControl X nowMs msg) c) := by
  induction msgs generalizing c with
  | nil => exact .refl c
  | cons msg rest ih =>
    have hfirst : ∀ reason, msg ≠ .bye reason := by
      rintro reason rfl
      exact hmsgs reason List.mem_cons_self
    have hrest : ∀ reason, ControlMsg.bye reason ∉ rest :=
      fun reason hin => hmsgs reason (List.mem_cons_of_mem _ hin)
    exact (Stays.handleControl X c nowMs hfirst).trans (ih hrest _)

theorem Stays.ping (c : ClientCore) (nowMs : UInt64) : Stays c (c.ping nowMs) := by
  unfold ClientCore.ping
  split_ifs
  · have hnumbered : Stays c { c with lastPingMs := nowMs, pingNonce := c.pingNonce + 1 } :=
      .silent rfl rfl rfl
    exact hnumbered.trans (.offer _ _)
  · exact .refl c

theorem Stays.feedAvatar (n fed : ℕ) (c : ClientCore) : Stays c (feedAvatar n fed c) := by
  refine ⟨.feedAvatar n fed c, ?_⟩
  induction n generalizing fed c with
  | zero => rfl
  | succ n ih =>
    unfold ClientCore.feedAvatar
    split
    · split
      · rfl
      · rename_i tx rest _
        split
        · rename_i tx' chunk _
          exact (ih _ _).trans (Stays.offer { c with
            avatarTx := tx' :: rest, passed := c.passed ++ [chunk] } chunk).state
        · exact ih _ _
    · rfl

theorem Stays.setAvatar (X : Externals) (c : ClientCore) (bytes : Bytes) :
    Stays c (c.setAvatar X bytes).1 := by
  simp only [ClientCore.setAvatar]
  split_ifs
  · exact .refl c
  · have hkept : Stays c { c with
        avatarCache := c.avatarCache.insert (X.blake2s bytes) bytes (X.blake2s bytes :: c.avatarPins)
        ownAvatar := some (X.blake2s bytes, UInt32.ofNat bytes.length)
        avatarTx := c.avatarTx.filter fun tx => tx.hash = X.blake2s bytes } := .silent rfl rfl rfl
    exact hkept.trans (.offer _ _)
  · exact .silent rfl rfl rfl

theorem Stays.setName (c : ClientCore) (name : String) : Stays c (c.setName name).1 := by
  have hnamed : Stays c { c with ownName := some (trim name) } := .silent rfl rfl rfl
  simp only [ClientCore.setName]
  split_ifs
  · exact .refl c
  · exact .refl c
  · exact hnamed.trans (.offer _ _)
  · exact hnamed

theorem Stays.command (c : ClientCore) (cmd : Command) : Stays c (c.command cmd).1 := by
  unfold ClientCore.command
  split
  · split
    · exact .refl c
    · exact .offer c _
  · exact .refl c

theorem command_taken {cmd : Command} {id : MemberId} (hstate : c.state = .joined)
    (hid : c.memberId = some id) (hcheck : cmd.check = .ok ())
    (hlengths : checkLengths (cmd.msg id) = .ok ()) (hroom : c.link.pending.length < maxPending) :
    (c.command cmd).1.taken = c.taken ++ [cmd.msg id] := by
  have hsend : ∃ link, c.link.send (cmd.msg id) = .ok link := by
    rw [ControlLink.send, hlengths]
    simp only
    rw [if_neg (Nat.not_le.mpr hroom)]
    exact ⟨_, rfl⟩
  obtain ⟨link, hsend⟩ := hsend
  unfold ClientCore.command
  rw [hstate, hid, hcheck]
  simp only [offer, hsend]

theorem flushLink_taken (X : Externals) (c : ClientCore) (nowMs : UInt64) :
    (c.flushLink X nowMs).1.taken = c.taken ∧ (c.flushLink X nowMs).1.state = c.state := by
  unfold ClientCore.flushLink
  rcases c.memberId with _ | id <;> exact ⟨rfl, rfl⟩

end ClientCore

namespace Transfer
variable {s : Transfer} {picture : Bytes}

theorem pair_step (h : Reachable (Pair.Step X.ctlPacket) Pair.init s.pair) (e : Event) :
    Reachable (Pair.Step X.ctlPacket) Pair.init (s.step X picture e).pair := by
  cases e with
  | handshakeResp nowMs id =>
    exact says_reachable (ClientCore.Beside.handshakeResp s.core nowMs id).speaks h
  | versionReject ours theirs =>
    exact says_reachable (ClientCore.Beside.versionReject s.core ours theirs).speaks h
  | capacityReject => exact says_reachable (ClientCore.Beside.capacityReject s.core).speaks h
  | reconnect nowMs => exact .refl
  | setAvatar => exact says_reachable (ClientCore.Stays.setAvatar X s.core picture).speaks h
  | setName name => exact says_reachable (ClientCore.Stays.setName s.core name).speaks h
  | command cmd => exact says_reachable (ClientCore.Stays.command s.core cmd).speaks h
  | media nowMs => exact says_reachable (ClientCore.Beside.handleMedia s.core nowMs).speaks h
  | receive nowMs i =>
    simp only [Transfer.step]
    split
    · exact h
    · rename_i d hd
      unfold ClientCore.handlePlain
      split
      · rw [List.append_nil]
        exact h
      · simp only
        -- the link takes the packet, each message it releases is handled, and the link is polled
        have hopened : Reachable (Pair.Step X.ctlPacket) Pair.init { s with core := { s.core with
            lastServerMs := nowMs, link := (s.core.link.receive X.ctlPacket d).1 } }.pair :=
          h.tail (.receiveA (List.mem_of_getElem? hd))
        have hhandled := says_reachable (ClientCore.Says.handleAll X nowMs
          ((s.core.link.receive X.ctlPacket d).2.toOption.getD []) _) hopened
        exact flush_reachable hhandled nowMs
  | poll nowMs =>
    simp only [Transfer.step]
    unfold ClientCore.poll
    split
    · split_ifs
      · rw [List.append_nil]
        exact h
      · rw [List.append_nil]
        exact h
    · split_ifs
      · rw [List.append_nil]
        exact h
      · have hfed := (ClientCore.Stays.ping s.core nowMs).trans
          (.feedAvatar (avatarChunksPerPoll + (s.core.ping nowMs).avatarTx.length) 0 _)
        exact flush_reachable (says_reachable hfed.speaks h) nowMs
    · rw [List.append_nil]
      exact h
  | farSend msg =>
    rcases hsend : s.far.send msg with e | far
    · have hsame : s.step X picture (.farSend msg) = s := by
        simp only [Transfer.step, hsend]
        rfl
      rw [hsame]
      exact h
    · have hmoved : s.step X picture (.farSend msg) = { s with far } := by
        simp only [Transfer.step, hsend]
        rfl
      rw [hmoved]
      exact h.tail (.sendB hsend)
  | farPoll nowMs => exact h.tail (.pollB _ nowMs)
  | farReceive i =>
    simp only [Transfer.step]
    split
    · exact h
    · rename_i d hd
      exact h.tail (.receiveB (List.mem_of_getElem? hd))

/-- What ends a connection: a new one, too long a silence or a link that has given up, and the
server's bye. -/
def Loses (X : Externals) (s : Transfer) : Event → Prop
  | .reconnect _ => True
  | .poll nowMs => s.core.isLost nowMs = true
  | .receive _ i => ∃ d ∈ s.toCore[i]?, ∃ reason,
    ControlMsg.bye reason ∈ (s.core.link.receive X.ctlPacket d).2.toOption.getD []
  | _ => False

theorem joined_of_stays {core : ClientCore} (hjoined : s.core.state = .joined)
    (h : s.core.Stays core) : core.state = .joined ∧ s.core.taken <+: core.taken := by
  obtain ⟨msgs, _, htaken⟩ := h.speaks
  exact ⟨h.state.trans hjoined, msgs, htaken.symm⟩

theorem joined_step (hjoined : s.core.state = .joined) {e : Event} (hkept : ¬s.Loses X e) :
    (s.step X picture e).core.state = .joined ∧
      s.core.taken <+: (s.step X picture e).core.taken := by
  cases e with
  | handshakeResp nowMs id =>
    have hsame : s.core.handshakeResp nowMs id = s.core := by
      rw [ClientCore.handshakeResp, hjoined]
    simp only [Transfer.step, hsame]
    exact ⟨hjoined, List.prefix_rfl⟩
  | versionReject ours theirs =>
    have hsame : s.core.versionReject ours theirs = s.core := by
      rw [ClientCore.versionReject, hjoined]
      rfl
    simp only [Transfer.step, hsame]
    exact ⟨hjoined, List.prefix_rfl⟩
  | capacityReject =>
    have hsame : s.core.capacityReject = s.core := by
      rw [ClientCore.capacityReject, if_neg]
      rw [hjoined]
      rintro ⟨-, hconnecting⟩
      cases hconnecting
    simp only [Transfer.step, hsame]
    exact ⟨hjoined, List.prefix_rfl⟩
  | reconnect nowMs => exact absurd trivial hkept
  | setAvatar => exact joined_of_stays hjoined (.setAvatar X s.core picture)
  | setName name => exact joined_of_stays hjoined (.setName s.core name)
  | command cmd => exact joined_of_stays hjoined (.command s.core cmd)
  | media nowMs =>
    have hsame : (s.step X picture (.media nowMs)).core = s.core.handleMedia nowMs := rfl
    rw [hsame]
    refine joined_of_stays hjoined ?_
    unfold ClientCore.handleMedia
    split_ifs
    · exact .silent rfl rfl rfl
    · exact .refl _
  | receive nowMs i =>
    simp only [Transfer.step]
    split
    · exact ⟨hjoined, List.prefix_rfl⟩
    · rename_i d hd
      unfold ClientCore.handlePlain
      split
      · exact ⟨hjoined, List.prefix_rfl⟩
      · simp only
        obtain ⟨htaken, hstate⟩ := ClientCore.flushLink_taken X
          (((s.core.link.receive X.ctlPacket d).2.toOption.getD []).foldl
            (fun c msg => c.handleControl X nowMs msg) { s.core with
              lastServerMs := nowMs, link := (s.core.link.receive X.ctlPacket d).1 }) nowMs
        rw [htaken, hstate]
        have hquiet : ∀ reason, ControlMsg.bye reason ∉
            (s.core.link.receive X.ctlPacket d).2.toOption.getD [] :=
          fun reason hbye => hkept ⟨d, hd, reason, hbye⟩
        exact joined_of_stays (s := { s with core := { s.core with
          lastServerMs := nowMs, link := (s.core.link.receive X.ctlPacket d).1 } }) hjoined
          (.handleAll X nowMs hquiet _)
  | poll nowMs =>
    have halive : s.core.isLost nowMs = false := Bool.eq_false_iff.mpr hkept
    simp only [Transfer.step]
    unfold ClientCore.poll
    rw [hjoined]
    simp only [halive, Bool.false_eq_true, if_false]
    obtain ⟨htaken, hstate⟩ := ClientCore.flushLink_taken X (ClientCore.feedAvatar
      (avatarChunksPerPoll + (s.core.ping nowMs).avatarTx.length) 0 (s.core.ping nowMs)) nowMs
    rw [htaken, hstate]
    exact joined_of_stays hjoined ((ClientCore.Stays.ping s.core nowMs).trans (.feedAvatar _ 0 _))
  | farSend msg => exact ⟨hjoined, List.prefix_rfl⟩
  | farPoll nowMs => exact ⟨hjoined, List.prefix_rfl⟩
  | farReceive i =>
    simp only [Transfer.step]
    split <;> exact ⟨hjoined, List.prefix_rfl⟩

end Transfer
end JamStream.Session
