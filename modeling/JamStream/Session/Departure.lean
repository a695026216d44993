import JamStream.Session.Orderly
import JamStream.Session.Plaintext

/-! What a member who has left can still do. A datagram may release several messages,
and each of them is handled whatever the ones before it did to the sender, so the law
that the departed have no effect holds of the runs in which whatever ends a connection
comes last in its batch. -/

namespace JamStream.Session
open Protocol Engine Foundations Relation Runs
variable {X : Externals}

namespace ServerCore

def budgetLeft (s : ServerCore X) (nowMs : UInt64) (id : MemberId) : Bool :=
  s.members[id]?.any fun m => (m.violationBudget.take nowMs).2

/-- A token left for one more message to everybody. -/
def fanoutLeft (s : ServerCore X) (nowMs : UInt64) (id : MemberId) : Bool :=
  s.members[id]?.any fun m => (m.fanoutBudget.take nowMs).2

def offends (s : ServerCore X) (nowMs : UInt64) (sender : MemberId) : ControlMsg → Bool
  | .chat .. => !s.fanoutLeft nowMs sender
  | .mixerSet _ gainDb pan _ => !gainDb.isFinite || !pan.isFinite
  | .metronomeSet .. | .broadcastAudition _ | .revoke _ | .recordCtl _ => sender ≠ hostMemberId
  | .broadcastMixSet _ gainDb pan _ =>
    sender ≠ hostMemberId || (!gainDb.isFinite || !pan.isFinite)
  | .hearSelf _ => s.members[sender]?.any fun m => m.role ≠ .musician
  | .setAvatar hash len =>
    len = 0 || maxAvatarBytes < len.toNat ||
      !(s.members[sender]?.any fun m => m.avatar = some (hash, len)) && !s.fanoutLeft nowMs sender
  | .avatarChunk hash index total data =>
    s.members[sender]?.any fun m => !(takeChunk X m.avatarRx hash index total data).2.isOk
  | .streamCtl (.addDestination _ _ key) =>
    sender ≠ hostMemberId || (key.isEmpty || maxStreamKeyLen < key.utf8ByteSize)
  | .streamCtl _ => sender ≠ hostMemberId
  | .clickEnable _ | .ping .. | .pong .. | .bye _ | .avatarRequest _ | .setName _ => false
  | .roster _ | .stats .. | .streamStatus _ | .recordStatus .. | .broadcastReadiness _
  | .serverLog _ => true

def resigns (s : ServerCore X) (sender : MemberId) : ControlMsg → Bool
  | .bye _ => true
  | .revoke jti => sender = hostMemberId &&
      (s.members.toList.find? fun e => e.2.jti = jti).any fun e => e.1 = sender
  | _ => false

def ends (s : ServerCore X) (nowMs : UInt64) (sender : MemberId) (msg : ControlMsg) : Bool :=
  s.offends nowMs sender msg && !s.budgetLeft nowMs sender || s.resigns sender msg

/-- Nothing in a batch ends the sender's connection but, at most, its last message. -/
def endsLast (nowMs : UInt64) (sender : MemberId) : List ControlMsg → ServerCore X → Bool
  | [], _ | [_], _ => true
  | msg :: rest, s => !s.ends nowMs sender msg &&
      endsLast nowMs sender rest (s.handleControl nowMs sender msg).1

def leavesLast (s : ServerCore X) (c : Call) : Bool :=
  match s.batch c with
  | none => true
  | some (t, nowMs, id, msgs) => endsLast nowMs id msgs t

/-- From a sender who is not connected, a message does nothing and draws nothing. -/
def Inert (s : ServerCore X) (nowMs : UInt64) (sender : MemberId) (msg : ControlMsg) : Prop :=
  s.isConnected sender = false → s.handleControl nowMs sender msg = (s, [])

/-- Nothing a call brings from somebody not connected has an effect: their packets are
dropped, and no message of a batch has one behind the sender's departure. -/
structure IgnoresDeparted (s : ServerCore X) (c : Call) : Prop where
  packets : ∀ nowMs nowUnix src data ephemeral id counter ciphertext,
    c = .handleDatagram nowMs nowUnix src data ephemeral →
    Wire.parse data = .ok (.transport id counter ciphertext) → s.isConnected id = false →
    s.call c = (s, [])
  messages : ∀ t nowMs id msgs, s.batch c = some (t, nowMs, id, msgs) →
    Meets (fun s msg => (s.handleControl nowMs id msg).1) (fun s msg => s.Inert nowMs id msg) t msgs

variable {s s' : ServerCore X} {nowMs : UInt64} {sender : MemberId}

theorem isConnected_room (s : ServerCore X) (id : MemberId) :
    s.isConnected id = (s.room.seats id).any Seat.taken := by
  unfold isConnected
  show _ = (s.members[id]?.map Member.seat).any Seat.taken
  cases s.members[id]? <;> rfl

theorem Quiet.isConnected (h : Quiet s s') (id : MemberId) :
    s'.isConnected id = s.isConnected id := by
  rw [isConnected_room, isConnected_room, h.room]

theorem Quiet.connected (hq : Quiet s s') (h : s.isConnected sender) :
    s'.isConnected sender = true := (hq.isConnected sender).trans h

theorem disconnectMember_gone (s : ServerCore X) (id : MemberId) :
    (s.disconnectMember id).isConnected id = false := by
  rw [isConnected_room, room_disconnectMember, Room.leave_seats, if_pos rfl]
  cases s.room.seats id <;> rfl

theorem isConnected_noteMusicianCount (s : ServerCore X) (id : MemberId) :
    s.noteMusicianCount.isConnected id = s.isConnected id := by
  rw [isConnected_room, isConnected_room, room_note]
  rfl

theorem violation_connected (h : s.isConnected sender) (what : String) :
    (s.violation nowMs sender what).isConnected sender = s.budgetLeft nowMs sender := by
  obtain ⟨m, hm, hconn⟩ := isConnected_iff.mp h
  have hleft : s.budgetLeft nowMs sender = (m.violationBudget.take nowMs).2 := by
    unfold budgetLeft
    rw [hm]
    rfl
  simp only [violation, hm]
  split_ifs with hbudget
  · rw [hleft, hbudget]
    refine Quiet.connected (.emit _ rfl) ?_
    exact Quiet.connected (.update s sender fun _ => rfl) h
  · rw [hleft, Bool.eq_false_iff.mpr hbudget, isConnected_noteMusicianCount]
    exact disconnectMember_gone _ sender

theorem takeFanout_left (h : s.isConnected sender) :
    (s.takeFanout nowMs sender).2 = s.fanoutLeft nowMs sender := by
  obtain ⟨m, hm, hconn⟩ := isConnected_iff.mp h
  simp only [takeFanout, fanoutLeft, hm, Option.any_some]
  split_ifs with hbudget
  · exact hbudget.symm
  · exact (Bool.eq_false_iff.mpr hbudget).symm

theorem takeFanout_refused (h : s.isConnected sender) (hrefused : ¬(s.takeFanout nowMs sender).2) :
    (s.takeFanout nowMs sender).1.isConnected sender = s.budgetLeft nowMs sender := by
  obtain ⟨m, hm, hconn⟩ := isConnected_iff.mp h
  simp only [takeFanout, hm] at hrefused ⊢
  split_ifs at hrefused ⊢ with hbudget
  · exact absurd rfl hrefused
  · let t := s.update sender fun m' => { m' with fanoutBudget := (m.fanoutBudget.take nowMs).1 }
    have ht : t.isConnected sender := Quiet.connected (.update s sender fun _ => rfl) h
    show (t.violation nowMs sender _).isConnected sender = _
    rw [violation_connected ht]
    -- the fanout budget is not the violation budget
    unfold budgetLeft
    rw [members_update, if_pos rfl, hm]
    rfl

theorem hostOnly_connected {t : ServerCore X} {what : String} (h : s.isConnected sender)
    (bad : Bool) (ht : sender = hostMemberId →
      t.isConnected sender = !(bad && !s.budgetLeft nowMs sender)) :
    (s.hostOnly nowMs sender what t).isConnected sender =
      !((decide (sender ≠ hostMemberId) || bad) && !s.budgetLeft nowMs sender) := by
  unfold hostOnly
  split_ifs with hhost
  · rw [violation_connected h]
    simp [hhost]
  · rw [ht (not_not.mp hhost)]
    simp [hhost]

theorem revoke_connected (h : s.isConnected sender) (jti : TokenId) :
    (s.revoke nowMs jti).1.isConnected sender =
      !(s.members.toList.find? fun e => e.2.jti = jti).any fun e => e.1 = sender := by
  obtain ⟨t, ht, hsilent, hroom, hmembers⟩ := revoke_barred s jti
  have hconn : t.isConnected sender := by
    unfold isConnected at h ⊢
    rwa [hmembers]
  simp only [revoke]
  rw [← ht, hmembers]
  cases s.members.toList.find? fun e => e.2.jti = jti with
  | none => exact hconn
  | some e =>
    obtain ⟨id, m⟩ := e
    have hfarewell := Quiet.connected (Calm.farewell t nowMs id "invite revoked").toQuiet hconn
    simp only [Option.any_some]
    rw [isConnected_noteMusicianCount]
    show ((t.farewell nowMs id "invite revoked").1.members.erase id)[sender]?.any _ = _
    rw [OrderedMap.getElem?_erase]
    by_cases hid : id = sender
    · rw [if_pos hid, decide_eq_true hid]
      rfl
    · rw [if_neg hid, decide_eq_false hid]
      exact hfarewell

theorem handleControl_connected (h : s.isConnected sender) (msg : ControlMsg) :
    (s.handleControl nowMs sender msg).1.isConnected sender = !s.ends nowMs sender msg := by
  have hcharged : ∀ what, (s.violation nowMs sender what).isConnected sender =
      s.budgetLeft nowMs sender := violation_connected h
  cases msg with
  | chat claimed text =>
    simp only [handleControl, ends, offends, resigns, ← takeFanout_left h]
    split_ifs with htaken
    · rw [htaken, (Calm.relay _ _).toQuiet.isConnected, takeFanout_connected htaken, h]
      rfl
    · rw [Bool.eq_false_iff.mpr htaken, takeFanout_refused h htaken]
      simp
  | mixerSet target gainDb pan muted =>
    simp only [handleControl, ends, offends, resigns]
    split_ifs with hbad
    · rw [hcharged, hbad]
      simp
    · rw [Bool.eq_false_iff.mpr hbad]
      exact Quiet.connected (.update s sender fun _ => rfl) h
  | metronomeSet bpm beatsPerBar enabled =>
    simp only [handleControl, ends, offends, resigns, Bool.or_false]
    rw [hostOnly_connected h false, Bool.or_false]
    intro _
    refine Quiet.connected (Calm.relay _ _).toQuiet ?_
    exact Quiet.connected (.of_eq rfl rfl rfl rfl rfl) h
  | clickEnable enabled => exact Quiet.connected (.update s sender fun _ => rfl) h
  | hearSelf enabled =>
    obtain ⟨m, hm, hconn⟩ := isConnected_iff.mp h
    simp only [handleControl, hearSelf, ends, offends, resigns, hm, Option.any_some,
      Bool.or_false]
    split_ifs with hrole
    · rw [hcharged]
      simp [hrole]
    · rw [decide_eq_false hrole]
      exact Quiet.connected (.update s sender fun _ => rfl) h
  | broadcastMixSet target gainDb pan muted =>
    simp only [handleControl, broadcastMixSet, ends, offends, resigns, Bool.or_false]
    rw [hostOnly_connected h (!gainDb.isFinite || !pan.isFinite)]
    intro _
    split_ifs with hbad
    · rw [hcharged, hbad]
      simp
    · rw [Bool.eq_false_iff.mpr hbad]
      refine Quiet.connected (Calm.relay _ _).toQuiet ?_
      exact Quiet.connected (.of_eq rfl rfl rfl rfl rfl) h
  | broadcastAudition enabled =>
    simp only [handleControl, ends, offends, resigns, Bool.or_false]
    rw [hostOnly_connected h false, Bool.or_false]
    intro _
    exact Quiet.connected (.of_eq rfl rfl rfl rfl rfl) h
  | ping nonce sentMs => exact Quiet.connected (Calm.queue s sender _).toQuiet h
  | pong nonce sentMs => exact Quiet.connected (.update s sender fun _ => rfl) h
  | revoke jti =>
    simp only [handleControl, ends, offends, resigns]
    split_ifs with hhost
    · rw [hcharged]
      simp [hhost]
    · rw [revoke_connected h]
      simp [not_not.mp hhost]
  | bye reason =>
    simp only [handleControl, bye, ends, offends, resigns, h, if_true]
    rw [isConnected_noteMusicianCount]
    exact disconnectMember_gone s sender
  | setAvatar hash len =>
    simp only [handleControl, setAvatar, ends, offends, resigns, Bool.or_false,
      ← takeFanout_left h]
    have hannounced : ∀ (t : ServerCore X) (unchanged : Bool), t.isConnected sender →
        (t.announceAvatar sender hash len unchanged).isConnected sender := by
      intro t unchanged ht
      have hturns : Turns nowMs sender True False (.setAvatar hash len) t
          (t.announceAvatar sender hash len unchanged) :=
        announceAvatar_turns t len unchanged rfl fun _ => ht
      exact hturns.quiet.connected ht
    split_ifs with hlen hsame htaken
    · rw [hcharged]
      rcases hlen with hlen | hlen <;> simp [hlen]
    · rw [hannounced s true h]
      simp [not_or.mp hlen, hsame]
    · rw [hannounced _ false ((takeFanout_connected htaken sender).trans h)]
      simp [not_or.mp hlen, htaken]
    · rw [takeFanout_refused h htaken]
      simp [hsame, htaken]
  | avatarChunk hash index total data =>
    obtain ⟨m, hm, hconn⟩ := isConnected_iff.mp h
    simp only [handleControl, avatarChunk, ends, offends, resigns, hm, Option.any_some,
      Bool.or_false]
    have ht : (s.update sender fun m' =>
        { m' with avatarRx := (takeChunk X m.avatarRx hash index total data).1 }).isConnected
          sender := Quiet.connected (.update s sender fun _ => rfl) h
    generalize htaken : s.update sender (fun m' =>
      { m' with avatarRx := (takeChunk X m.avatarRx hash index total data).1 }) = t at ht
    split
    · rename_i hstep
      rw [hstep, ht]
      rfl
    · rename_i bytes hstep
      have hserved : Turns nowMs sender True False (.avatarRequest hash) t
          (t.serveAvatar hash bytes) :=
        .trans (.single (.store t _ _)) (serve_turns hash _ _)
      rw [hstep, hserved.quiet.connected ht]
      rfl
    · rename_i what hstep
      rw [hstep, violation_connected ht, ← htaken]
      unfold budgetLeft
      rw [members_update, if_pos rfl, hm]
      show _ = !(true && !(m.violationBudget.take nowMs).2)
      simp
  | avatarRequest hash =>
    have hturns : Turns nowMs sender True False (.avatarRequest hash) s
        (s.avatarRequest sender hash) := avatarRequest_turns s rfl fun _ => h
    exact hturns.quiet.connected h
  | streamCtl op =>
    simp only [handleControl, streamCtl]
    have haccept : (s.emit (.streamCtl op)).isConnected sender = true :=
      Quiet.connected (.emit s rfl) h
    cases op with
    | addDestination id platform key =>
      simp only [ends, offends, resigns, Bool.or_false]
      rw [hostOnly_connected h (key.isEmpty || maxStreamKeyLen < key.utf8ByteSize)]
      intro _
      split_ifs with hbad
      · rw [hcharged]
        rcases hbad with hbad | hbad <;> simp [hbad]
      · rw [haccept]
        simp [not_or.mp hbad]
    | _ =>
      simp only [ends, offends, resigns, Bool.or_false]
      rw [hostOnly_connected h false, Bool.or_false]
      exact fun _ => haccept
  | recordCtl op =>
    simp only [handleControl, ends, offends, resigns, Bool.or_false]
    rw [hostOnly_connected h false, Bool.or_false]
    intro _
    exact Quiet.connected (.emit s rfl) h
  | setName name =>
    simp only [handleControl, setName]
    split_ifs
    · exact h
    · show (s.update sender _).isConnected sender = true
      exact Quiet.connected (.update s sender fun _ => rfl) h
    · exact h
  | roster _ | stats _ _ _ | streamStatus _ | recordStatus _ _ | broadcastReadiness _
  | serverLog _ => simp [handleControl, hcharged, ends, offends, resigns]

/-- The messages of a batch, each handled in the state the ones before it left. -/
abbrev handling (nowMs : UInt64) (sender : MemberId) (s : ServerCore X) (msg : ControlMsg) :
    ServerCore X := (s.handleControl nowMs sender msg).1

theorem handleBatch_run (nowMs : UInt64) (sender : MemberId) (msgs : List ControlMsg)
    (s : ServerCore X) :
    (handleBatch nowMs sender msgs s).1 = run (handling nowMs sender) s msgs := by
  induction msgs generalizing s with
  | nil => rfl
  | cons msg rest ih => exact ih _

theorem batch_connected {msgs : List ControlMsg} (h : s.isConnected sender)
    (hlast : endsLast nowMs sender msgs s) :
    Meets (handling nowMs sender) (fun s _ => s.isConnected sender) s msgs := by
  induction msgs generalizing s with
  | nil => trivial
  | cons msg rest ih =>
    refine ⟨h, ?_⟩
    cases rest with
    | nil => trivial
    | cons next rest =>
      obtain ⟨hstays, hrest⟩ := Bool.and_eq_true_iff.mp hlast
      exact ih ((handleControl_connected h msg).trans hstays) hrest

theorem Released.batch {msgs : List ControlMsg} (hs : s.Released)
    (hconn : Meets (handling nowMs sender) (fun s _ => s.isConnected sender) s msgs) :
    (handleBatch nowMs sender msgs s).1.Released := by
  rw [handleBatch_run]
  refine (throughout_of_meets (fun t msg ht hlive => ?_) hs hconn).last
  exact ((handleControl_turns t nowMs sender msg).orderly hlive).released ht

theorem openTransport_gone {id : MemberId} (h : s.isConnected id = false) (nowMs : UInt64)
    (src : SocketAddr) (counter : UInt64) (ciphertext : Bytes) :
    s.openTransport nowMs src id counter ciphertext = (s, none) := by
  unfold openTransport
  cases hm : s.members[id]? with
  | none => rfl
  | some m =>
    have hgone : m.connected = false := by
      unfold isConnected at h
      rwa [hm] at h
    simp only [hgone, Bool.not_false, if_true]

theorem connected_of_batch {c : Call} {t : ServerCore X} {msgs : List ControlMsg}
    (h : s.batch c = some (t, nowMs, sender, msgs)) : t.isConnected sender := by
  rw [(Calm.of_batch h).toQuiet.isConnected]
  cases c with
  | handleDatagram now nowUnix src data ephemeral =>
    simp only [batch] at h
    split at h
    · rename_i id counter ciphertext hparse
      cases hid : s.isConnected id with
      | false =>
        rw [openTransport_gone hid] at h
        exact absurd h (Option.some_ne_none _).symm
      | true =>
        split at h
        · obtain ⟨-, -, rfl, -⟩ := Option.some.inj h
          exact hid
        · exact absurd h (Option.some_ne_none _).symm
    · exact absurd h (Option.some_ne_none _).symm
  | _ => exact absurd h (Option.some_ne_none _).symm

theorem endsLast_of_leavesLast {c : Call} {t : ServerCore X} {msgs : List ControlMsg}
    (hlast : s.leavesLast c) (h : s.batch c = some (t, nowMs, sender, msgs)) :
    endsLast nowMs sender msgs t := by
  unfold leavesLast at hlast
  rwa [h] at hlast

theorem Released.step (hs : s.Released) {c : Call} (hlast : s.leavesLast c) :
    (s.step c).Released := by
  by_cases hc : c = .events
  · subst hc
    exact hs.of_eq rfl rfl
  · cases h : s.batch c with
    | none => exact (Orderly.step hc h).released hs
    | some released =>
      obtain ⟨t, nowMs, id, msgs⟩ := released
      rw [step_of_batch h]
      refine (Calm.flushMemberLink _ nowMs id).released ?_
      refine ((Calm.of_batch h).released hs).batch ?_
      exact batch_connected (connected_of_batch h) (endsLast_of_leavesLast hlast h)

theorem IgnoresDeparted.of_leavesLast {c : Call} (hlast : s.leavesLast c) :
    s.IgnoresDeparted c where
  packets nowMs nowUnix src data ephemeral id counter ciphertext hc hparse hgone := by
    subst hc
    simp only [call, handleDatagram, hparse, handleTransport, openTransport_gone hgone]
  messages t nowMs id msgs h := by
    have hconn := batch_connected (connected_of_batch h) (endsLast_of_leavesLast hlast h)
    refine hconn.imp (P := fun _ => True) (fun _ _ _ _ => trivial) (fun u msg _ hlive => ?_) trivial
    exact fun hgone => absurd (hgone.symm.trans hlive) Bool.false_ne_true

theorem start_released (X : Externals) (cfg : ServerConfig) (logTail : Option LogTail)
    (jtis : List TokenId) : (start X cfg logTail jtis).Released where
  cleared id m hm _ := by
    have hnone : (∅ : Std.ExtTreeMap MemberId (Member X))[id]? = some m := hm
    rw [Std.ExtTreeMap.getElem?_empty] at hnone
    exact absurd hnone (Option.some_ne_none m).symm
  audition _ := rfl

/-- In a run in which whatever ends a connection comes last in its batch, nothing the
departed send has an effect, and nothing of their connection is left. -/
theorem departed_have_no_effect (X : Externals) (cfg : ServerConfig) (logTail : Option LogTail)
    (jtis : List TokenId) (calls : List Call)
    (h : Meets step (fun s c => s.leavesLast c) (start X cfg logTail jtis) calls) :
    Throughout step Released (start X cfg logTail jtis) calls ∧
      Meets step IgnoresDeparted (start X cfg logTail jtis) calls :=
  ⟨throughout_of_meets (fun _ _ hs hlast => hs.step hlast) (start_released X cfg logTail jtis) h,
    h.imp (P := Released) (fun _ _ hs hlast => hs.step hlast)
      (fun _ _ _ hlast => .of_leavesLast hlast) (start_released X cfg logTail jtis)⟩

def joining : List Call :=
  [.handleDatagram 0 0 (Plaintext.addrOf 0) (Plaintext.initOf 0 .musician) [],
   .handleDatagram 1 0 (Plaintext.addrOf 1) (Plaintext.initOf 1 .musician) []]

def packet (counter seq : UInt64) (msg : ControlMsg) : Call :=
  .handleDatagram (2 + counter) 0 (Plaintext.addrOf 1)
    (Plaintext.packetOf 1 counter { ack := 0, ackBits := 0, frame := some (seq, msg) }) []

def parted : List Call := joining ++ [packet 0 0 (.bye ""), packet 1 1 (.chat 1 "still here")]

theorem departed_have_no_effect_parted :
    Throughout step Released (start plaintext Plaintext.config none []) parted ∧
      Meets step IgnoresDeparted (start plaintext Plaintext.config none []) parted :=
  departed_have_no_effect plaintext Plaintext.config none [] parted (by decide +kernel)

/-- The goodbye was lost at first, and comes with what was sent behind it. -/
def parting : List Call :=
  joining ++ [packet 0 1 (.chat 1 "still here"), packet 1 2 (.setAvatar 7 100),
    packet 2 0 (.bye "")]

theorem departed_have_no_effect_parting :
    let s := run step (start plaintext Plaintext.config none []) parting
    (s.isConnected 1 = false ∧
      (s.members[(1 : MemberId)]?.any fun m => m.avatarRx.isSome) = true ∧
      (s.members[(0 : MemberId)]?.any fun m =>
        m.link.pending.any fun p => p.msg = .chat 1 "still here") = true) ∧
    ¬(Throughout step Released (start plaintext Plaintext.config none []) parting ∧
      Meets step IgnoresDeparted (start plaintext Plaintext.config none []) parting) := by
  have hheard : (run step (start plaintext Plaintext.config none []) parting).isConnected 1 =
        false ∧
      ((run step (start plaintext Plaintext.config none []) parting).members[(1 : MemberId)]?.any
        fun m => m.avatarRx.isSome) = true ∧
      ((run step (start plaintext Plaintext.config none []) parting).members[(0 : MemberId)]?.any
        fun m => m.link.pending.any fun p => p.msg = .chat 1 "still here") = true := by
    decide +kernel
  refine ⟨hheard, fun h => ?_⟩
  have hreleased := h.1.last
  generalize run step (start plaintext Plaintext.config none []) parting = s at hheard hreleased
  -- an upload is under way for somebody who is gone
  obtain ⟨m, hm, hrx⟩ := (Option.any_eq_true _ _).mp hheard.2.1
  have hgone : m.connected = false := by
    have hconn := hheard.1
    unfold isConnected at hconn
    rwa [hm] at hconn
  rw [(hreleased.cleared 1 m hm hgone).avatarRx] at hrx
  exact Bool.false_ne_true hrx

end ServerCore
end JamStream.Session
