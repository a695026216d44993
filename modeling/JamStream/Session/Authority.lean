import JamStream.Protocol.LinkWindow
import JamStream.Session.Calls
import JamStream.Session.Entries
import JamStream.Session.Plaintext
import JamStream.Session.Turns

/-! What a member without the host's seat can bring about: changes to their own
entry, messages queued for others, and avatar transfers. -/

namespace JamStream.Session
open Protocol Engine Foundations Relation Runs
variable {X : Externals}

def Queued (P : ControlMsg → Prop) (l l' : ControlLink) : Prop :=
  ∃ new, l' = { l with nextSeq := l'.nextSeq, pending := l.pending ++ new } ∧ ∀ p ∈ new, P p.msg

/-- Every message in the queue was in it before, or satisfies `P`. -/
def QueuedAnew (P : ControlMsg → Prop) (l l' : ControlLink) : Prop :=
  ∀ p ∈ l'.pending, (∃ q ∈ l.pending, q.msg = p.msg) ∨ P p.msg

def Signed (sender : MemberId) (msg : ControlMsg) : Prop :=
  ∀ claimed text, msg = .chat claimed text → claimed = sender

section Links
variable {P : ControlMsg → Prop} {l l' l'' : ControlLink}

theorem Queued.refl (l : ControlLink) : Queued P l l :=
  ⟨[], by rw [List.append_nil], fun p hp => absurd hp List.not_mem_nil⟩

theorem Queued.trans (h : Queued P l l') (h' : Queued P l' l'') : Queued P l l'' := by
  obtain ⟨new, hl', hP⟩ := h
  obtain ⟨new', hl'', hP'⟩ := h'
  refine ⟨new ++ new', ?_, fun p hp => ?_⟩
  · rw [hl'', hl', List.append_assoc]
  · exact (List.mem_append.mp hp).elim (hP p) (hP' p)

theorem Queued.anew (h : Queued P l l') : QueuedAnew P l l' := by
  obtain ⟨new, hl', hP⟩ := h
  intro p hp
  rw [hl'] at hp
  exact (List.mem_append.mp hp).imp (fun hp => ⟨p, hp, rfl⟩) (hP p)

theorem QueuedAnew.trans (h : QueuedAnew P l l') (h' : QueuedAnew P l' l'') :
    QueuedAnew P l l'' := by
  intro p hp
  rcases h' p hp with ⟨q, hq, hqp⟩ | hP
  · rw [← hqp]
    exact h q hq
  · exact .inr hP

theorem pollScan_msg {limit nowMs : UInt64} {datagram : Pending → Bytes} {ps : List Pending}
    {p : Pending} (hp : p ∈ (ControlLink.pollScan limit nowMs datagram ps).1) :
    ∃ q ∈ ps, q.msg = p.msg := by
  induction ps with
  | nil => exact absurd hp List.not_mem_nil
  | cons q ps ih =>
    have hrest : p ∈ (ControlLink.pollScan limit nowMs datagram ps).1 →
        ∃ q' ∈ q :: ps, q'.msg = p.msg := by
      intro h
      obtain ⟨q', hq', hmsg⟩ := ih h
      exact ⟨q', List.mem_cons_of_mem q hq', hmsg⟩
    unfold ControlLink.pollScan at hp
    split_ifs at hp
    · exact ⟨p, hp, rfl⟩
    all_goals
      rcases List.mem_cons.mp hp with heq | hp
      · exact ⟨q, List.mem_cons_self, (congrArg Pending.msg heq).symm⟩
      · exact hrest hp

theorem queuedAnew_poll (C : Codec CtlPacket) (nowMs : UInt64) :
    QueuedAnew P l (l.poll C nowMs).1 := fun _ hp => .inl (pollScan_msg hp)

theorem Answers.signed {sender : MemberId} {msg m : ControlMsg} (h : Answers sender msg m) :
    Signed sender m := by
  rintro claimed text rfl
  cases msg with
  | chat _ _ => exact (ControlMsg.chat.inj h).1
  | metronomeSet _ _ _ => exact ControlMsg.noConfusion (h : ControlMsg.chat _ _ = _)
  | broadcastMixSet _ _ _ _ => exact ControlMsg.noConfusion (h : ControlMsg.chat _ _ = _)
  | ping _ _ => exact ControlMsg.noConfusion (h : ControlMsg.chat _ _ = _)
  | setAvatar _ _ => exact ControlMsg.noConfusion (h : ControlMsg.chat _ _ = _)
  | avatarRequest _ => exact ControlMsg.noConfusion (h : ControlMsg.chat _ _ = _)
  | _ => exact False.elim h

end Links

namespace Member

/-- `m` with everything `m'` has that is the member's own to change: settings, budgets,
link, transfers and connection. Role, token and media state are not. -/
def own (m m' : Member X) : Member X :=
  { m.settings m' with
    link := m'.link, avatarRx := m'.avatarRx, avatarTx := m'.avatarTx
    connected := m'.connected, quiet := m'.quiet, addr := m'.addr, session := m'.session
    respCache := m'.respCache }

def beside (m m' : Member X) : Member X := { m.trains m' with link := m'.link }

def Touched (sender id : MemberId) (m m' : Member X) : Prop :=
  if id = sender then m' = m.own m' ∧ QueuedAnew (Signed sender) m.link m'.link
  else m' = m.beside m' ∧ Queued (Signed sender) m.link m'.link

theorem Touched.refl (sender id : MemberId) (m : Member X) : Touched sender id m m := by
  unfold Touched
  split_ifs
  · exact ⟨rfl, (Queued.refl m.link).anew⟩
  · exact ⟨rfl, Queued.refl m.link⟩

theorem Touched.trans {sender id : MemberId} {a b c : Member X} (h : Touched sender id a b)
    (h' : Touched sender id b c) : Touched sender id a c := by
  unfold Touched at h h' ⊢
  split_ifs at h h' ⊢
  · refine ⟨?_, h.2.trans h'.2⟩
    calc c = b.own c := h'.1
      _ = (a.own b).own c := congrArg (fun m => m.own c) h.1
      _ = a.own c := rfl
  · refine ⟨?_, h.2.trans h'.2⟩
    calc c = b.beside c := h'.1
      _ = (a.beside b).beside c := congrArg (fun m => m.beside c) h.1
      _ = a.beside c := rfl

theorem touched_of_beside {sender id : MemberId} {m m' : Member X} (h : m' = m.beside m')
    (hlink : Queued (Signed sender) m.link m'.link) : Touched sender id m m' := by
  unfold Touched
  split_ifs
  · refine ⟨?_, hlink.anew⟩
    rw [h]
    rfl
  · exact ⟨h, hlink⟩

theorem touched_own {sender : MemberId} {m m' : Member X} (h : m' = m.own m')
    (hlink : QueuedAnew (Signed sender) m.link m'.link) : Touched sender sender m m' := by
  unfold Touched
  rw [if_pos rfl]
  exact ⟨h, hlink⟩

theorem touched_settings {sender : MemberId} {m m' : Member X} (h : m' = m.settings m') :
    Touched sender sender m m' := by
  refine touched_own ?_ ?_ <;> rw [h]
  · rfl
  · exact (Queued.refl m.link).anew

theorem touched_trains {sender id : MemberId} {m m' : Member X} (h : m' = m.trains m') :
    Touched sender id m m' := by
  refine touched_of_beside ?_ ?_ <;> rw [h]
  · rfl
  · exact Queued.refl m.link

theorem queued_send {P : ControlMsg → Prop} {msg : ControlMsg} (hP : P msg) (m : Member X) :
    Queued P m.link (m.send msg).link := by
  unfold send
  cases h : m.link.send msg with
  | error e => exact Queued.refl m.link
  | ok l =>
    refine ⟨[{ seq := m.link.nextSeq, msg, nextSendMs := 0, sends := 0 }], ?_, fun p hp => ?_⟩
    · rw [(ControlLink.send_ok h).2.2]
    · rw [List.mem_singleton.mp hp]
      exact hP

theorem touched_send {sender id : MemberId} {msg : ControlMsg} (h : Signed sender msg)
    (m : Member X) : Touched sender id m (m.send msg) := by
  refine touched_of_beside ?_ (queued_send h m)
  unfold send
  split <;> rfl

end Member
namespace ServerCore

/-- Nothing the host alone may touch has moved, no event of the host's was raised,
and every entry changed only as a sender's messages may change it. -/
structure Unprivileged (sender : MemberId) (s s' : ServerCore X) : Prop where
  revoked : s'.revoked = s.revoked
  metronome : s'.metronome = s.metronome
  metronomeEnabled : s'.metronomeEnabled = s.metronomeEnabled
  bcastFaders : s'.bcastFaders = s.bcastFaders
  audition : s'.audition = s.audition
  events : ∃ new, s'.events = s.events ++ new ∧ ∀ event ∈ new, ¬event.IsHostOnly
  entries : Entries (Member.Touched sender) s s'

variable {sender : MemberId} {s s' s'' : ServerCore X}

theorem Unprivileged.refl (sender : MemberId) (s : ServerCore X) : Unprivileged sender s s where
  revoked := rfl
  metronome := rfl
  metronomeEnabled := rfl
  bcastFaders := rfl
  audition := rfl
  events := ⟨[], (List.append_nil _).symm, fun _ h => absurd h List.not_mem_nil⟩
  entries := .of_eq (Member.Touched.refl sender) rfl

theorem Unprivileged.trans (h : Unprivileged sender s s') (h' : Unprivileged sender s' s'') :
    Unprivileged sender s s'' where
  revoked := h'.revoked.trans h.revoked
  metronome := h'.metronome.trans h.metronome
  metronomeEnabled := h'.metronomeEnabled.trans h.metronomeEnabled
  bcastFaders := h'.bcastFaders.trans h.bcastFaders
  audition := h'.audition.trans h.audition
  events := by
    obtain ⟨new, hnew, hhost⟩ := h.events
    obtain ⟨new', hnew', hhost'⟩ := h'.events
    refine ⟨new ++ new', ?_, fun event hmem => ?_⟩
    · rw [hnew', hnew, List.append_assoc]
    · exact (List.mem_append.mp hmem).elim (hhost event) (hhost' event)
  entries := h.entries.trans (fun _ _ _ _ => Member.Touched.trans) h'.entries

theorem Unprivileged.of_entries (h : Entries (Member.Touched sender) s s')
    (hs : s' = { s with members := s'.members, refused := s'.refused }) :
    Unprivileged sender s s' := by
  have hrefl := Unprivileged.refl sender s
  rw [hs] at h ⊢
  exact { hrefl with entries := h }

theorem Unprivileged.emit (s : ServerCore X) {event : ServerEvent} (h : ¬event.IsHostOnly) :
    Unprivileged sender s (s.emit event) :=
  { Unprivileged.refl sender s with
    events := ⟨[event], rfl, fun _ hmem => List.mem_singleton.mp hmem ▸ h⟩ }

theorem Unprivileged.roster (s : ServerCore X) : Unprivileged sender s s.queueRoster :=
  { Unprivileged.refl sender s with }

theorem Unprivileged.note (s : ServerCore X) : Unprivileged sender s s.noteMusicianCount := by
  unfold noteMusicianCount
  split_ifs
  · have hcounted : Unprivileged sender s { s with lastMusicianCount := s.musiciansConnected } :=
      { Unprivileged.refl sender s with }
    exact hcounted.trans (.emit _ fun h => h)
  · exact .refl sender s

theorem Unprivileged.disconnect (hsender : sender ≠ hostMemberId) (s : ServerCore X) :
    Unprivileged sender s (s.disconnectMember sender) := by
  have hentries : Entries (Member.Touched sender) s (s.disconnectMember sender) :=
    entries_disconnectMember (Member.Touched.refl sender) fun m =>
      Member.touched_own rfl (Queued.refl m.link).anew
  unfold disconnectMember at hentries ⊢
  rw [if_neg hsender] at hentries ⊢
  split_ifs at hentries ⊢
  · exact .of_entries hentries rfl
  · exact .refl sender s

theorem Turn.unprivileged {nowMs : UInt64} {live leaving : Prop} {msg : ControlMsg}
    (hsender : sender ≠ hostMemberId) (h : Turn nowMs sender live leaving msg s s') :
    Unprivileged sender s s' := by
  cases h with
  | settings f hf =>
    refine .of_entries (entries_update (Member.Touched.refl sender) fun m _ => ?_) rfl
    exact Member.touched_settings (hf m)
  | trains id f hf hlive =>
    refine .of_entries (entries_update (Member.Touched.refl sender) fun m _ => ?_) rfl
    exact Member.touched_trains (hf m)
  | queue id m hm =>
    exact .of_entries (entries_queue (Member.Touched.refl sender)
      (Member.touched_send hm.signed)) rfl
  | relay m hm =>
    exact .of_entries (entries_relay (Member.Touched.refl sender)
      fun _ => Member.touched_send hm.signed) rfl
  | emit event hcount hhost => exact .emit s fun h => hsender (hhost h)
  | roster => exact .roster s
  | store cache waiters => exact { Unprivileged.refl sender s with }
  | host metronome enabled faders hhost => exact absurd hhost hsender
  | audition on hhost hlive => exact absurd hhost hsender
  | leave event hcount hhost hleave =>
    exact (((Unprivileged.disconnect hsender s).trans (.emit _ hhost)).trans (.roster _)).trans
      (.note _)
  | revoke jti hhost hmsg hleave => exact absurd hhost hsender

theorem handleControl_unprivileged (hsender : sender ≠ hostMemberId) (s : ServerCore X)
    (nowMs : UInt64) (msg : ControlMsg) :
    Unprivileged sender s (s.handleControl nowMs sender msg).1 := by
  have hturns := handleControl_turns s nowMs sender msg
  generalize (s.handleControl nowMs sender msg).1 = t at hturns ⊢
  induction hturns with
  | refl => exact .refl sender s
  | tail _ hturn ih => exact ih.trans (hturn.unprivileged hsender)

theorem handleBatch_unprivileged (hsender : sender ≠ hostMemberId) (nowMs : UInt64)
    (msgs : List ControlMsg) (s : ServerCore X) :
    Unprivileged sender s (handleBatch nowMs sender msgs s).1 := by
  induction msgs generalizing s with
  | nil => exact .refl sender s
  | cons msg rest ih => exact (handleControl_unprivileged hsender s nowMs msg).trans (ih _)

theorem post_session (m : Member X) (id : MemberId) (plain : Bytes) :
    ∃ session, (m.post id plain).1 = { m with session } := by
  unfold Member.post
  split
  · exact ⟨_, rfl⟩
  · exact ⟨m.session, rfl⟩

theorem postAll_session (id : MemberId) (plains : List Bytes) (m : Member X) :
    ∃ session, (Member.postAll id plains m).1 = { m with session } := by
  induction plains generalizing m with
  | nil => exact ⟨m.session, rfl⟩
  | cons plain rest ih =>
    obtain ⟨first, hfirst⟩ := post_session m id plain
    obtain ⟨last, hlast⟩ := ih (m.post id plain).1
    refine ⟨last, hlast.trans ?_⟩
    rw [hfirst]

theorem flush_eq (m : Member X) (id : MemberId) (nowMs : UInt64) :
    ∃ session, (m.flush id nowMs).1 =
      { m with link := (m.link.poll X.ctlPacket nowMs).1, session } :=
  postAll_session id _ _

theorem flush_unprivileged (s : ServerCore X) (nowMs : UInt64) :
    Unprivileged sender s (s.flushMemberLink nowMs sender).1 := by
  unfold flushMemberLink
  split
  · exact .refl sender s
  · split_ifs
    · refine .of_entries (entries_update (Member.Touched.refl sender) fun m _ => ?_) rfl
      obtain ⟨session, hflush⟩ := flush_eq m sender nowMs
      refine Member.touched_own ?_ ?_ <;> rw [hflush]
      · rfl
      · exact queuedAnew_poll X.ctlPacket nowMs
    · exact .refl sender s

/-- A batch from anyone but the host, handled in any state and flushed, leaves the host's
powers alone and nobody else's entry touched but for its link and its transfers. -/
theorem only_the_host_has_authority (s : ServerCore X) (nowMs : UInt64)
    (hsender : sender ≠ hostMemberId) (msgs : List ControlMsg) :
    Unprivileged sender s (s.handlePlain nowMs sender (.ok (some msgs))).1 :=
  (handleBatch_unprivileged hsender nowMs msgs s).trans (flush_unprivileged _ nowMs)

def seated : List Call :=
  [.handleDatagram 0 0 (Plaintext.addrOf 0) (Plaintext.initOf 0 .musician) [],
   .handleDatagram 1 0 (Plaintext.addrOf 1) (Plaintext.initOf 1 .musician) [],
   .handleDatagram 2 0 (Plaintext.addrOf 2) (Plaintext.initOf 2 .musician) []]

theorem only_the_host_has_authority_greedy :
    let s := run step (start plaintext Plaintext.config none []) seated
    ([0, 1, 2].all s.isConnected) = true ∧
    Unprivileged 1 s (s.handlePlain 5 1 (.ok (some
        [.revoke 2, .metronomeSet 90 4 true, .broadcastMixSet 2 .zero .zero true,
          .broadcastAudition true, .streamCtl .start, .recordCtl .start,
          .chat hostMemberId "hello"]))).1 := by
  intro s
  have hseated : ([0, 1, 2].all s.isConnected) = true := by decide +kernel
  exact ⟨hseated, only_the_host_has_authority s 5 (by decide) _⟩

end ServerCore
end JamStream.Session
