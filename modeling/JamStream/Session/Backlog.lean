import JamStream.Protocol.LinkWindow
import JamStream.Session.Freshness

/-! What the cap on a control link may cost the room. Bulk keeps clear of the last
slots, but an answer to a ping takes one whoever asks and however often, so what must
arrive does arrive exactly while the links it goes to have a slot left. -/

namespace JamStream.Session
open Protocol Engine Foundations Runs Relation
variable {X : Externals}

/-- The state of the room and what is said in it, which the cap is never to refuse. -/
def isRoomState : ControlMsg → Bool
  | .roster _ | .chat .. | .recordStatus .. | .streamStatus _ | .broadcastReadiness _ => true
  | _ => false

def IsLoss (r : Refusal) : Prop := isRoomState r.2.1 ∧ r.2.2 = .linkFull

instance (r : Refusal) : Decidable (IsLoss r) := inferInstanceAs (Decidable (_ ∧ _))

theorem checkLengths_error {msg : ControlMsg} {e : Error} (h : checkLengths msg = .error e) :
    e = .malformed := by
  have hrefuse : ∀ {bad : Prop} [Decidable bad], refuseIf bad = .error e → e = .malformed := by
    intro bad _ hbad
    unfold refuseIf at hbad
    split_ifs at hbad
    exact (Except.error.inj hbad).symm
  unfold checkLengths at h
  split at h
  all_goals first
    | exact hrefuse h
    | exact nomatch h

theorem AvatarTx.nextChunk_some {tx tx' : AvatarTx} {bytes : Bytes} {chunk : ControlMsg}
    (h : tx.nextChunk bytes = (tx', some chunk)) :
    ∃ total data, chunk = .avatarChunk tx.hash tx.next total data := by
  simp only [nextChunk] at h
  split_ifs at h
  · exact absurd (congrArg Prod.snd h) (Option.some_ne_none chunk).symm
  · exact ⟨_, _, (Option.some.inj (congrArg Prod.snd h)).symm⟩

namespace Member

theorem pendingLen_send (m : Member X) (msg : ControlMsg) :
    (m.send msg).link.pendingLen ≤ m.link.pendingLen + 1 := by
  unfold send
  split
  · rename_i l hl
    have hlink := (ControlLink.send_ok hl).2.2
    show l.pending.length ≤ _
    rw [hlink, List.length_append]
    exact le_rfl
  · exact Nat.le_succ _

theorem room_send {m : Member X} {msg : ControlMsg} (h : checkLengths msg = .ok ()) :
    (m.send msg).link.pendingLen < maxPending ↔ m.link.pendingLen + 1 < maxPending := by
  unfold send ControlLink.send
  rw [h]
  by_cases hfull : maxPending ≤ m.link.pending.length
  · simp only [if_pos hfull]
    exact ⟨fun hroom => absurd hfull (not_le.mpr hroom), Nat.lt_of_succ_lt⟩
  · simp only [if_neg hfull]
    show (m.link.pending ++ _).length < maxPending ↔ _
    rw [List.length_append]
    rfl

theorem link_post (m : Member X) (id : MemberId) (plain : Bytes) :
    (m.post id plain).1.link = m.link := by
  unfold post
  split <;> rfl

theorem link_sendFrame (m : Member X) (id : MemberId) (timestamp : UInt64)
    (duration : FrameDuration) (payload : Bytes) :
    (m.sendFrame id timestamp duration payload).1.link = m.link := link_post _ id _

theorem link_sendMix (m : Member X) (id : MemberId) (clock : UInt64) (pcm : Stereo X.toAudio) :
    (m.sendMix id clock pcm).1.link = m.link := by
  unfold sendMix
  split
  · rfl
  · split
    · rfl
    · exact link_sendFrame _ id clock _ _

/-- A message is lost to a full link when it is one of the room's and would have been
taken by any other. -/
theorem refusal_loss (m : Member X) (id : MemberId) (msg : ControlMsg) :
    (∃ r ∈ m.refusal id msg, IsLoss r) ↔
      isRoomState msg ∧ checkLengths msg = .ok () ∧ maxPending ≤ m.link.pendingLen := by
  unfold refusal ControlLink.send
  cases hlengths : checkLengths msg with
  | error e =>
    obtain rfl := checkLengths_error hlengths
    constructor
    · rintro ⟨r, hr, -, hfull⟩
      rw [List.mem_singleton.mp hr] at hfull
      exact nomatch hfull
    · rintro ⟨-, hok, -⟩
      exact nomatch hok
  | ok u =>
    by_cases hfull : maxPending ≤ m.link.pending.length
    · simp only [if_pos hfull, List.mem_singleton, exists_eq_left]
      exact ⟨fun h => ⟨h.1, trivial, hfull⟩, fun h => ⟨h.1, rfl⟩⟩
    · simp only [if_neg hfull, List.not_mem_nil, false_and, exists_false, false_iff]
      exact fun h => hfull h.2.2

theorem refusal_spared {m : Member X} {msg : ControlMsg} (id : MemberId)
    (h : isRoomState msg → m.link.pendingLen < maxPending) : ∀ r ∈ m.refusal id msg, ¬IsLoss r := by
  intro r hr hloss
  obtain ⟨hroom, -, hfull⟩ := (refusal_loss m id msg).mp ⟨r, hr, hloss⟩
  exact absurd (h hroom) (not_lt.mpr hfull)

theorem feedAvatar_spared (cache : AvatarCache) (id : MemberId) (n fed : ℕ) (m : Member X) :
    ∀ r ∈ (feedAvatar cache id n fed m).2, ¬IsLoss r := by
  induction n generalizing fed m with
  | zero => exact fun r hr => absurd hr List.not_mem_nil
  | succ n ih =>
    unfold feedAvatar
    split
    · split
      · exact fun r hr => absurd hr List.not_mem_nil
      · split
        · rename_i tx' chunk hchunk
          intro r hr
          rcases List.mem_append.mp hr with hr | hr
          · refine refusal_spared id (fun hroom => ?_) r hr
            obtain ⟨bytes, -, hnext⟩ := Option.map_eq_some_iff.mp hchunk
            obtain ⟨total, data, rfl⟩ := AvatarTx.nextChunk_some hnext
            exact absurd hroom Bool.false_ne_true
          · exact ih _ _ r hr
        · exact ih _ _
    · exact fun r hr => absurd hr List.not_mem_nil

end Member

namespace ServerCore

def Lossless (s : ServerCore X) : Prop := ∀ r ∈ s.refused, ¬IsLoss r

instance (s : ServerCore X) : Decidable s.Lossless := inferInstanceAs (Decidable (∀ r ∈ _, _))

/-- Every connected member's link has a slot left once `due` more are taken. -/
def hasRoom (s : ServerCore X) (due : Member X → ℕ) : Bool :=
  s.members.toList.all fun e => !e.2.connected || e.2.link.pendingLen + due e.2 < maxPending

variable {s s' s'' : ServerCore X}

theorem hasRoom_iff {due : Member X → ℕ} : s.hasRoom due ↔
    ∀ (id : MemberId) (m : Member X), s.members[id]? = some m → m.connected →
      m.link.pendingLen + due m < maxPending := by
  unfold hasRoom
  rw [List.all_eq_true]
  constructor
  · intro h id m hm hconnected
    have hroom := h (id, m) (Std.ExtTreeMap.mem_toList_iff_getElem?_eq_some.mpr hm)
    rw [Bool.or_eq_true, hconnected] at hroom
    exact of_decide_eq_true (hroom.resolve_left Bool.false_ne_true)
  · rintro h ⟨id, m⟩ he
    rw [Bool.or_eq_true, Bool.not_eq_true', decide_eq_true_eq]
    have hm := Std.ExtTreeMap.mem_toList_iff_getElem?_eq_some.mp he
    cases hconnected : m.connected with
    | false => exact .inl rfl
    | true => exact .inr (h id m hm hconnected)

theorem hasRoom_each {f : MemberId → Member X → Member X × Outgoing × List Refusal}
    {due due' : Member X → ℕ}
    (hf : ∀ id m, (f id m).1.connected = m.connected ∧
      ((f id m).1.link.pendingLen + due' (f id m).1 < maxPending ↔
        m.link.pendingLen + due m < maxPending)) :
    (s.each f).1.hasRoom due' = s.hasRoom due := by
  show (s.members.map fun id m => (f id m).1).toList.all _ = s.members.toList.all _
  rw [Std.ExtTreeMap.toList_map, List.all_map]
  refine congrArg s.members.toList.all (funext fun e => ?_)
  obtain ⟨hconnected, hroom⟩ := hf e.1 e.2
  simp only [Function.comp_apply, hconnected, hroom]

/-- What was lost before is all that is lost. -/
abbrev Spares (s s' : ServerCore X) : Prop := s'.Lossless ↔ s.Lossless

theorem lossless_append {new : List Refusal} (h : s'.refused = s.refused ++ new) :
    s'.Lossless ↔ s.Lossless ∧ ∀ r ∈ new, ¬IsLoss r := by
  unfold Lossless
  rw [h]
  exact List.forall_mem_append

theorem Spares.refl (s : ServerCore X) : Spares s s := Iff.rfl

theorem Spares.trans (h : Spares s s') (h' : Spares s' s'') : Spares s s'' := Iff.trans h' h

theorem Spares.lossless {p : Prop} (h : Spares s s') (hp : p) :
    s'.Lossless ↔ s.Lossless ∧ p := Iff.trans h (and_iff_left hp).symm

theorem Spares.of_refused (h : s'.refused = s.refused) : Spares s s' := by
  unfold Spares Lossless
  rw [h]

theorem Spares.of_append {new : List Refusal} (h : s'.refused = s.refused ++ new)
    (hnew : ∀ r ∈ new, ¬IsLoss r) : Spares s s' :=
  (lossless_append h).trans (and_iff_left hnew)

theorem Spares.each (s : ServerCore X)
    {f : MemberId → Member X → Member X × Outgoing × List Refusal}
    (hf : ∀ id m, ∀ r ∈ (f id m).2.2, ¬IsLoss r) : Spares s (s.each f).1 := by
  refine .of_append rfl fun r hr => ?_
  obtain ⟨e, -, hr⟩ := List.mem_flatMap.mp hr
  exact hf e.1 e.2 r hr

theorem Spares.queue (s : ServerCore X) (id : MemberId) {msg : ControlMsg}
    (h : isRoomState msg → ∀ m, s.members[id]? = some m → m.link.pendingLen < maxPending) :
    Spares s (s.queue id msg) := by
  refine .of_append rfl fun r hr => ?_
  obtain ⟨m, hm, hr⟩ := List.mem_flatMap.mp hr
  exact m.refusal_spared id (fun hroom => h hroom m (Option.mem_toList.mp hm)) r hr

theorem lossless_relay (s : ServerCore X) (msg : ControlMsg) :
    (s.relay msg).Lossless ↔ s.Lossless ∧
      (isRoomState msg → checkLengths msg = .ok () → s.hasRoom fun _ => 0) := by
  have happend : (s.relay msg).refused = s.refused ++ s.members.toList.flatMap fun e =>
      (if e.2.connected then (e.2.send msg, [], e.2.refusal e.1 msg) else (e.2, [], [])
        : Member X × Outgoing × List Refusal).2.2 := rfl
  rw [lossless_append happend, hasRoom_iff]
  refine and_congr_right fun _ => ⟨fun h hroom hlengths id m hm hconnected => ?_, ?_⟩
  · -- a link without a slot would have lost it
    by_contra hfull
    obtain ⟨r, hr, hloss⟩ := (m.refusal_loss id msg).mpr ⟨hroom, hlengths, not_lt.mp hfull⟩
    refine h r (List.mem_flatMap.mpr ⟨(id, m), ?_, ?_⟩) hloss
    · exact Std.ExtTreeMap.mem_toList_iff_getElem?_eq_some.mpr hm
    · rwa [if_pos hconnected]
  · intro h r hr hloss
    obtain ⟨⟨id, m⟩, he, hr⟩ := List.mem_flatMap.mp hr
    have hm := Std.ExtTreeMap.mem_toList_iff_getElem?_eq_some.mp he
    split_ifs at hr with hconnected
    · obtain ⟨hroom, hlengths, hfull⟩ := (m.refusal_loss id msg).mp ⟨r, hr, hloss⟩
      exact absurd (h hroom hlengths id m hm hconnected) (not_lt.mpr hfull)
    · exact List.not_mem_nil hr

theorem noteMusicianCount_spares (s : ServerCore X) : Spares s s.noteMusicianCount := by
  refine .of_refused ?_
  unfold noteMusicianCount
  split_ifs <;> rfl

theorem disconnectMember_spares (s : ServerCore X) (id : MemberId) :
    Spares s (s.disconnectMember id) := by
  refine .of_refused ?_
  unfold disconnectMember
  split_ifs <;> rfl

theorem flushMemberLink_spares (s : ServerCore X) (nowMs : UInt64) (id : MemberId) :
    Spares s (s.flushMemberLink nowMs id).1 := by
  refine .of_refused ?_
  unfold flushMemberLink
  split
  · rfl
  · split_ifs <;> rfl

theorem farewell_spares (s : ServerCore X) (nowMs : UInt64) (id : MemberId) (reason : String) :
    Spares s (s.farewell nowMs id reason).1 := by
  unfold farewell
  split_ifs
  · have hbye : Spares s (s.queue id (.bye reason)) :=
      .queue s id fun hroom => absurd hroom Bool.false_ne_true
    exact hbye.trans (flushMemberLink_spares _ nowMs id)
  · exact .refl s

theorem revoke_spares (s : ServerCore X) (nowMs : UInt64) (jti : TokenId) :
    Spares s (s.revoke nowMs jti).1 := by
  have hbarred : Spares s (if jti ∈ s.revoked then s
      else { s with revoked := insert jti s.revoked }.emit (.tokenRevoked jti)) := by
    split_ifs
    · exact .refl s
    · exact .of_refused rfl
  simp only [revoke]
  split
  · exact hbarred
  · rename_i id m _
    refine (hbarred.trans (farewell_spares _ nowMs id "invite revoked")).trans ?_
    exact .trans (.of_refused rfl) (noteMusicianCount_spares _)

theorem Turn.spares {nowMs : UInt64} {sender : MemberId} {live leaving : Prop} {msg : ControlMsg}
    (h : Turn nowMs sender live leaving msg s s') (hmsg : ¬isRoomState msg) : Spares s s' := by
  have hanswer : ∀ {m}, Answers sender msg m → ¬isRoomState m := by
    intro m hm
    cases msg with
    | chat => exact absurd rfl hmsg
    | metronomeSet | broadcastMixSet | ping | setAvatar | avatarRequest =>
      obtain rfl := hm
      exact Bool.false_ne_true
    | _ => exact absurd hm id
  cases h with
  | settings | trains | emit | roster | store | host | audition => exact .of_refused rfl
  | queue id m hm => exact .queue s id fun hroom => absurd hroom (hanswer hm)
  | relay m hm =>
    exact (lossless_relay s m).trans (and_iff_left fun hroom => absurd hroom (hanswer hm))
  | leave event =>
    refine (disconnectMember_spares s sender).trans ?_
    exact .trans (.of_refused rfl) (noteMusicianCount_spares _)
  | revoke jti => exact revoke_spares s nowMs jti

theorem Turns.spares {nowMs : UInt64} {sender : MemberId} {live leaving : Prop} {msg : ControlMsg}
    (h : Turns nowMs sender live leaving msg s s') (hmsg : ¬isRoomState msg) : Spares s s' := by
  induction h with
  | refl => exact .refl s
  | tail _ hturn ih => exact ih.trans (hturn.spares hmsg)

theorem violation_spares (s : ServerCore X) (nowMs : UInt64) (id : MemberId) (what : String) :
    Spares s (s.violation nowMs id what) := by
  have hturns : Turns nowMs id False True (.hearSelf true) s (s.violation nowMs id what) :=
    violation_turns trivial s what
  exact hturns.spares Bool.false_ne_true

theorem takeFanout_spares (s : ServerCore X) (nowMs : UInt64) (sender : MemberId) :
    Spares s (s.takeFanout nowMs sender).1 := by
  have hturns : Turns nowMs sender False True (.hearSelf true) s (s.takeFanout nowMs sender).1 :=
    takeFanout_turns trivial s
  exact hturns.spares Bool.false_ne_true

abbrev SameBacklog : ServerCore X → ServerCore X → Prop :=
  Entries fun id m m' => m'.link = m.link ∧ m'.info id = m.info id

theorem SameBacklog.roster (h : SameBacklog s s') : s'.roster = s.roster := by
  refine SameInfo.roster (Entries.mono ?_ h)
  exact fun _ _ _ hsame => hsame.2

theorem SameBacklog.hasRoom (h : SameBacklog s s') {due : Member X → ℕ}
    (hdue : ∀ m m' : Member X, m'.role = m.role → m'.connected = m.connected → due m' = due m) :
    s'.hasRoom due = s.hasRoom due := by
  rw [Bool.eq_iff_iff, hasRoom_iff, hasRoom_iff]
  constructor
  · intro hroom id m hm hconnected
    obtain ⟨m', hm', hlink, hinfo⟩ := h.some hm
    have hsame : m'.connected = m.connected := congrArg MemberInfo.connected hinfo
    have hroom' := hroom id m' hm' (hsame.trans hconnected)
    rwa [hlink, hdue m m' (congrArg MemberInfo.role hinfo) hsame] at hroom'
  · intro hroom id m' hm' hconnected
    obtain ⟨m, hm, hlink, hinfo⟩ := h.some_after hm'
    have hsame : m'.connected = m.connected := congrArg MemberInfo.connected hinfo
    have hroom' := hroom id m hm (hsame.symm.trans hconnected)
    rwa [hlink, hdue m m' (congrArg MemberInfo.role hinfo) hsame]

/-- What handling a message needs of the links: a slot on each for a chat line that is
paid for. -/
def RoomFor (s : ServerCore X) (nowMs : UInt64) (sender : MemberId) : ControlMsg → Prop
  | .chat _ text => (s.takeFanout nowMs sender).2 → checkLengths (.chat sender text) = .ok () →
      s.hasRoom fun _ => 0
  | _ => True

theorem takeFanout_hasRoom {nowMs : UInt64} {sender : MemberId}
    (h : (s.takeFanout nowMs sender).2) :
    ((s.takeFanout nowMs sender).1.hasRoom fun _ => 0) = s.hasRoom fun _ => 0 := by
  simp only [takeFanout] at h ⊢
  split at h
  · exact absurd h Bool.false_ne_true
  · split_ifs at h ⊢
    refine SameBacklog.hasRoom (entries_update ?_ ?_) fun _ _ _ _ => rfl
    · exact fun _ _ => ⟨rfl, rfl⟩
    · exact fun _ _ => ⟨rfl, rfl⟩

theorem lossless_handleControl (s : ServerCore X) (nowMs : UInt64) (sender : MemberId)
    (msg : ControlMsg) : (s.handleControl nowMs sender msg).1.Lossless ↔
      s.Lossless ∧ s.RoomFor nowMs sender msg := by
  cases msg with
  | chat claimed text =>
    have htaken := takeFanout_spares s nowMs sender
    simp only [handleControl, RoomFor]
    split_ifs with hpaid
    · rw [lossless_relay, takeFanout_hasRoom hpaid]
      exact and_congr htaken ⟨fun h _ => h rfl, fun h _ => h hpaid⟩
    · exact htaken.lossless fun h => absurd h hpaid
  | roster | stats | streamStatus | recordStatus | broadcastReadiness | serverLog =>
    exact (violation_spares s nowMs sender _).lossless trivial
  | _ =>
    refine Spares.lossless ?_ trivial
    exact (handleControl_turns s nowMs sender _).spares Bool.false_ne_true

theorem lossless_handleBatch (nowMs : UInt64) (sender : MemberId) (msgs : List ControlMsg)
    (s : ServerCore X) : (handleBatch nowMs sender msgs s).1.Lossless ↔
      s.Lossless ∧ Meets (fun s msg => (handleControl s nowMs sender msg).1)
        (fun s msg => s.RoomFor nowMs sender msg) s msgs := by
  induction msgs generalizing s with
  | nil => exact (and_iff_left trivial).symm
  | cons msg rest ih =>
    refine (ih _).trans ?_
    rw [lossless_handleControl, and_assoc]
    rfl

theorem takeRejectTurn_spares (s : ServerCore X) (nowMs : UInt64) (src : SocketAddr) :
    Spares s (s.takeRejectTurn nowMs src).1 := by
  refine .of_refused ?_
  simp only [takeRejectTurn]
  split_ifs <;> rfl

def Waiting (s : ServerCore X) (id : MemberId) (n : ℕ) : Prop :=
  ∀ m, s.members[id]? = some m → m.link.pendingLen ≤ n

theorem Waiting.queue {id : MemberId} {n : ℕ} (h : s.Waiting id n) (msg : ControlMsg) :
    (s.queue id msg).Waiting id (n + 1) := by
  intro m' hm'
  have hmodify : s.members[id]?.map (fun m => m.send msg) = some m' := by
    have hlookup := members_update s id id fun m => m.send msg
    rw [if_pos rfl] at hlookup
    exact hlookup.symm.trans hm'
  obtain ⟨m, hm, rfl⟩ := Option.map_eq_some_iff.mp hmodify
  exact (m.pendingLen_send msg).trans (Nat.add_le_add_right (h m hm) 1)

theorem Waiting.spares {id : MemberId} {n : ℕ} (h : s.Waiting id n) (hn : n < maxPending)
    (msg : ControlMsg) : Spares s (s.queue id msg) :=
  .queue s id fun _ m hm => (h m hm).trans_lt hn

theorem Waiting.greet_spares {id : MemberId} (h : s.Waiting id 0) : Spares s (s.greet id) := by
  unfold greet
  extract_lets t u
  have ht : Spares s t ∧ t.Waiting id 1 := by
    unfold t
    split_ifs
    · exact ⟨.refl s, fun m hm => (h m hm).trans (Nat.zero_le 1)⟩
    · exact ⟨h.spares (by decide) _, h.queue _⟩
  have hu : Spares s u ∧ u.Waiting id 2 := by
    unfold u
    split
    · exact ⟨ht.1, fun m hm => (ht.2 m hm).trans one_le_two⟩
    · exact ⟨ht.1.trans (ht.2.spares (by decide) _), ht.2.queue _⟩
  split_ifs
  · exact hu.1
  · exact hu.1.trans (hu.2.spares (by decide) _)

theorem welcomed_spares (s : ServerCore X) (nowMs : UInt64) (src : SocketAddr) (token : Token)
    (session : Protocol.Session X.toCrypto) (cache : RespCache)
    (media : Option X.Encoder × Option X.Decoder) :
    Spares s (s.welcomed nowMs src token session cache media) := by
  simp only [welcomed]
  generalize hjoin : Member.join s.members[token.memberId]? nowMs src token session cache media.1
    media.2 = m
  refine .trans (Spares.trans ?_ (Waiting.greet_spares ?_)) (noteMusicianCount_spares _)
  · exact .of_refused rfl
  · intro m' hm'
    have hseated : (s.members.insert token.memberId m)[token.memberId]? = some m' := hm'
    rw [OrderedMap.getElem?_insert, if_pos rfl] at hseated
    obtain rfl := Option.some.inj hseated
    rw [← hjoin]
    exact le_rfl

theorem takeSeat_spares (s : ServerCore X) (nowMs : UInt64) (src : SocketAddr) (token : Token)
    (responder : Responder X.toCrypto) (initHash : Digest) (ephemeral : Bytes) :
    Spares s (s.takeSeat nowMs src token responder initHash ephemeral).1 := by
  simp only [takeSeat]
  split
  · exact .refl s
  · rename_i t ht
    have hencoder : Spares s t := by
      unfold ensureBcastEncoder at ht
      split_ifs at ht
      · obtain ⟨encoder, -, rfl⟩ := Option.map_eq_some_iff.mp ht
        exact .of_refused rfl
      · obtain rfl := Option.some.inj ht
        exact .refl s
    refine hencoder.trans ?_
    split
    · exact welcomed_spares t nowMs src token _ _ _
    · exact .refl t

theorem admitToken_spares (s : ServerCore X) (nowMs : UInt64) (src : SocketAddr)
    (noise ephemeral : Bytes) (token : Token) (responder : Responder X.toCrypto) :
    Spares s (s.admitToken nowMs src noise ephemeral token responder).1 := by
  have havailable : Spares s (s.violationAvailable nowMs token.memberId).1 := by
    refine .of_refused ?_
    simp only [violationAvailable]
    split <;> rfl
  simp only [admitToken]
  generalize s.violationAvailable nowMs token.memberId = r at havailable ⊢
  split
  · exact .refl s
  · split
    · exact havailable
    · refine havailable.trans ?_
      split
      · exact .refl _
      · split
        · refine .trans (takeRejectTurn_spares r.1 nowMs src) (.of_refused ?_)
          simp only [capacityReject]
          split_ifs <;> rfl
        · exact takeSeat_spares r.1 nowMs src _ _ _ ephemeral

theorem admitInit_spares (s : ServerCore X) (nowMs nowUnix : UInt64) (src : SocketAddr)
    (noise ephemeral : Bytes) : Spares s (s.admitInit nowMs nowUnix src noise ephemeral).1 := by
  have hbudget : Spares s (s.initBudgetTake nowMs src).1 := by
    refine .of_refused ?_
    simp only [initBudgetTake]
    split_ifs <;> rfl
  simp only [admitInit]
  generalize s.initBudgetTake nowMs src = r at hbudget ⊢
  split_ifs
  · exact hbudget
  · have hread : Spares s { r.1 with initReads := r.1.initReads + 1 } :=
      hbudget.trans (.of_refused rfl)
    refine hread.trans ?_
    split
    · exact .refl _
    · split
      · exact .refl _
      · exact admitToken_spares _ nowMs src _ _ _ _

theorem versionReject_spares (s : ServerCore X) (nowMs : UInt64) (src : SocketAddr)
    (theirs : UInt16) (noise data : Bytes) :
    Spares s (s.versionReject nowMs src theirs noise data).1 := by
  have hturn := takeRejectTurn_spares s nowMs src
  simp only [versionReject]
  generalize s.takeRejectTurn nowMs src = r at hturn ⊢
  split_ifs
  · exact .refl s
  · exact hturn
  · exact hturn

theorem cookieChallenge_spares (s : ServerCore X) (nowMs : UInt64) (src : SocketAddr)
    (initPacket : Bytes) : Spares s (s.cookieChallenge nowMs src initPacket).1 := by
  refine .of_refused ?_
  simp only [cookieChallenge]
  split_ifs <;> rfl

theorem openTransport_spares (s : ServerCore X) (nowMs : UInt64) (src : SocketAddr)
    (id : MemberId) (counter : UInt64) (ciphertext : Bytes) :
    Spares s (s.openTransport nowMs src id counter ciphertext).1 := by
  refine .of_refused ?_
  unfold openTransport
  split
  · rfl
  · split_ifs
    · rfl
    · split
      · rfl
      · split <;> rfl

theorem SameBacklog.refl (s : ServerCore X) : SameBacklog s s :=
  .of_eq (fun _ _ => ⟨rfl, rfl⟩) rfl

theorem SameBacklog.trans (h : SameBacklog s s') (h' : SameBacklog s' s'') : SameBacklog s s'' :=
  Entries.trans (fun _ _ _ _ hab hbc => ⟨hbc.1.trans hab.1, hbc.2.trans hab.2⟩) h h'

theorem sendMixes_sameBacklog (s : ServerCore X) (clock : UInt64) :
    SameBacklog s (s.sendMixes clock).1 := by
  refine entries_each fun id m => ?_
  split_ifs
  · exact ⟨m.link_sendMix id clock _, m.info_sendMix id clock _⟩
  · exact ⟨rfl, rfl⟩

theorem sendBroadcast_sameBacklog (s : ServerCore X) : SameBacklog s s.sendBroadcast.1 := by
  unfold sendBroadcast
  split
  · split
    · exact .refl s
    · split
      · exact .of_eq (fun _ _ => ⟨rfl, rfl⟩) rfl
      · refine entries_map (fun id m => ?_) (members_each _ _)
        split_ifs
        · exact ⟨m.link_sendFrame id _ _ _, m.info_sendFrame id _ _ _⟩
        · exact ⟨rfl, rfl⟩
  · exact .refl s

theorem tickAudio_sameBacklog (s : ServerCore X) : SameBacklog s s.tickAudio.1 := by
  have hdecoded : ∀ t : ServerCore X, SameBacklog t t.decodeUplinks := by
    intro t
    refine entries_map (g := fun _ m =>
      if m.isActive .musician then (m.decodeFrame t.bcastTap).1 else m) (fun id m => ?_)
      fun id => Std.ExtTreeMap.getElem?_map
    split_ifs <;> exact ⟨rfl, rfl⟩
  have hmixed : ∀ t : ServerCore X, SameBacklog t (t.mixBroadcast s.sampleClock) :=
    fun t => .of_eq (fun _ _ => ⟨rfl, rfl⟩) rfl
  have hclock : SameBacklog s { s with sampleClock := s.sampleClock + UInt64.ofNat tickSamples } :=
    .of_eq (fun _ _ => ⟨rfl, rfl⟩) rfl
  exact (((hclock.trans (hdecoded _)).trans (hmixed _)).trans (sendMixes_sameBacklog _ _)).trans
    (sendBroadcast_sameBacklog _)

theorem tickAudio_spares (s : ServerCore X) : Spares s s.tickAudio.1 := by
  have hmixes : ∀ (t : ServerCore X) (clock : UInt64), Spares t (t.sendMixes clock).1 := by
    refine fun t clock => .each t fun id m => ?_
    split_ifs <;> exact fun r hr => absurd hr List.not_mem_nil
  have hsent : ∀ t : ServerCore X, Spares t t.sendBroadcast.1 := by
    intro t
    unfold sendBroadcast
    split
    · split
      · exact .refl t
      · split
        · exact .of_refused rfl
        · rename_i enc payload _
          have hencoded : Spares t { t with
              bcastEncoder := some enc, bcastEncodes := t.bcastEncodes + 1 } := .of_refused rfl
          refine hencoded.trans (.each _ fun id m => ?_)
          split_ifs <;> exact fun r hr => absurd hr List.not_mem_nil
    · exact .refl t
  have hdecoded : Spares s (({ s with sampleClock := s.sampleClock + UInt64.ofNat tickSamples
      }.decodeUplinks).mixBroadcast s.sampleClock) := .of_refused rfl
  exact (hdecoded.trans (hmixes _ _)).trans ((hsent _).trans (.of_refused rfl))

theorem tickAudio_timers (s : ServerCore X) :
    s.tickAudio.1.rosterDirty = s.rosterDirty ∧ s.tickAudio.1.lastStatsMs = s.lastStatsMs := by
  have hsent : ∀ t : ServerCore X, t.sendBroadcast.1.rosterDirty = t.rosterDirty ∧
      t.sendBroadcast.1.lastStatsMs = t.lastStatsMs := by
    intro t
    unfold sendBroadcast
    split
    · split
      · exact ⟨rfl, rfl⟩
      · split <;> exact ⟨rfl, rfl⟩
    · exact ⟨rfl, rfl⟩
  exact hsent _

/-- The report a musician is due this tick takes a slot first. -/
def statsDue (s : ServerCore X) (nowMs : UInt64) (m : Member X) : ℕ :=
  if statsIntervalMs ≤ saturatingSub nowMs s.lastStatsMs ∧ m.isActive .musician then 1 else 0

theorem sendStats_spares (s : ServerCore X) (nowMs : UInt64) : Spares s (s.sendStats nowMs) := by
  unfold sendStats
  split
  · have hstamped : Spares s { s with lastStatsMs := nowMs } := .of_refused rfl
    refine hstamped.trans (.each _ fun id m => ?_)
    split_ifs
    · exact m.refusal_spared id fun hroom => absurd hroom Bool.false_ne_true
    · exact fun r hr => absurd hr List.not_mem_nil
  · exact .refl s

theorem sendStats_sameInfo (s : ServerCore X) (nowMs : UInt64) :
    SameInfo s (s.sendStats nowMs) := by
  unfold sendStats
  split
  · refine entries_map (fun id m => ?_) (members_each { s with lastStatsMs := nowMs } _)
    split_ifs
    · exact Member.info_send _ _ id
    · rfl
  · exact .refl s

theorem hasRoom_sendStats (s : ServerCore X) (nowMs : UInt64) :
    ((s.sendStats nowMs).hasRoom fun _ => 0) = s.hasRoom (s.statsDue nowMs) := by
  unfold sendStats
  split_ifs with hdue
  · -- each musician has one more waiting, where there was a slot for it
    refine hasRoom_each (s := { s with lastStatsMs := nowMs }) fun id m => ?_
    split_ifs with hactive
    · have hone : s.statsDue nowMs m = 1 := if_pos ⟨hdue, hactive⟩
      rw [hone]
      refine ⟨congrArg MemberInfo.connected (Member.info_send _ _ id), ?_⟩
      exact Member.room_send (m := { m with statsPrev := X.jitterStats m.jitter }) rfl
    · have hnone : s.statsDue nowMs m = 0 := if_neg fun h => hactive h.2
      rw [hnone]
      exact ⟨rfl, Iff.rfl⟩
  · have hnone : s.statsDue nowMs = fun _ => 0 :=
      funext fun m => if_neg fun h => hdue h.1
    rw [hnone]

theorem feedServerLogFrom_spares (nowMs : UInt64) (n : ℕ) (s : ServerCore X) :
    Spares s (feedServerLogFrom nowMs n s) := by
  induction n generalizing s with
  | zero => exact .refl s
  | succ n ih =>
    simp only [feedServerLogFrom]
    split
    · rename_i tail line _ _
      split_ifs
      · have hpaid : Spares s { s with
            logBudget := (s.logBudget.take nowMs).1, logTail := some tail.clearDropped } :=
          .of_refused rfl
        have hline : ∀ t : ServerCore X, Spares t (t.queue hostMemberId (.serverLog line)) :=
          fun t => .queue t hostMemberId fun hroom => absurd hroom Bool.false_ne_true
        exact (hpaid.trans (hline _)).trans (ih _)
      · exact .of_refused rfl
      · exact .refl s
    · exact .refl s

theorem feedServerLog_spares (s : ServerCore X) (nowMs : UInt64) :
    Spares s (s.feedServerLog nowMs) := by
  unfold feedServerLog
  split_ifs
  · exact feedServerLogFrom_spares nowMs _ s
  · exact .refl s

theorem pollLinks_spares (s : ServerCore X) (nowMs : UInt64) :
    Spares s (s.pollLinks nowMs).1 := by
  refine .each s fun id m => ?_
  split_ifs
  · exact Member.feedAvatar_spared s.avatarCache id _ _ m
  · exact fun r hr => absurd hr List.not_mem_nil

theorem disconnectAll_spares (ids : List MemberId) (s : ServerCore X) :
    Spares s (s.disconnectAll ids) := by
  induction ids generalizing s with
  | nil => exact .refl s
  | cons id rest ih =>
    have hleft : Spares s ((s.disconnectMember id).emit (.memberDisconnected id)) :=
      (disconnectMember_spares s id).trans (.of_refused rfl)
    exact hleft.trans (ih _)

theorem reap_spares (s : ServerCore X) (nowMs : UInt64) : Spares s (s.reap nowMs) := by
  unfold reap
  split_ifs
  · exact .refl s
  · have hgone := disconnectAll_spares (s.gone nowMs) s
    generalize s.disconnectAll (s.gone nowMs) = t at hgone ⊢
    exact (hgone.trans (.of_refused rfl)).trans (noteMusicianCount_spares t.queueRoster)

theorem quietScan_spares (s : ServerCore X) (nowMs : UInt64) : Spares s (s.quietScan nowMs) := by
  refine .of_refused ?_
  simp only [quietScan]
  split_ifs <;> rfl

theorem dropPeer_spares (s : ServerCore X) (addr : SocketAddr) : Spares s (s.dropPeer addr) := by
  unfold dropPeer
  split
  · exact .refl s
  · rename_i id _ _
    have hleft : Spares s ((s.disconnectMember id).emit (.memberDisconnected id)).queueRoster :=
      (disconnectMember_spares s id).trans (.of_refused rfl)
    exact hleft.trans (noteMusicianCount_spares _)

theorem shutdown_spares (s : ServerCore X) (nowMs : UInt64) (reason : String) :
    Spares s (s.shutdown nowMs reason).1 := by
  have hbyes : ∀ (ids : List MemberId) (r : ServerCore X × Outgoing), Spares r.1
      (ids.foldl (fun (r : ServerCore X × Outgoing) id =>
        let f := r.1.farewell nowMs id reason
        ((f.1.disconnectMember id).emit (.memberDisconnected id), r.2 ++ f.2)) r).1 := by
    intro ids
    induction ids with
    | nil => exact fun r => .refl r.1
    | cons id rest ih =>
      intro r
      rw [List.foldl_cons]
      refine .trans ?_ (ih _)
      exact (farewell_spares r.1 nowMs id reason).trans
        ((disconnectMember_spares _ id).trans (.of_refused rfl))
  unfold shutdown
  exact ((feedServerLog_spares s nowMs).trans (hbyes _ _)).trans (noteMusicianCount_spares _)

theorem lossless_flushRoster (s : ServerCore X) : s.flushRoster.Lossless ↔
    s.Lossless ∧ (s.rosterDirty → checkLengths (.roster s.roster) = .ok () →
      s.hasRoom fun _ => 0) := by
  unfold flushRoster
  split_ifs with hdirty
  · refine (lossless_relay _ _).trans (and_congr_right fun _ => ?_)
    exact ⟨fun h _ => h rfl, fun h _ => h hdirty⟩
  · exact Spares.lossless (.refl s) fun h => absurd h hdirty

theorem lossless_tick (s : ServerCore X) (nowMs : UInt64) : (s.tick nowMs).1.Lossless ↔
    s.Lossless ∧ (s.rosterDirty → checkLengths (.roster s.roster) = .ok () →
      s.hasRoom (s.statsDue nowMs)) := by
  have hafter : ∀ t : ServerCore X,
      Spares t (((((t.feedServerLog nowMs).pollLinks nowMs).1.reap nowMs).quietScan nowMs)) :=
    fun t => (((feedServerLog_spares t nowMs).trans (pollLinks_spares _ nowMs)).trans
      (reap_spares _ nowMs)).trans (quietScan_spares _ nowMs)
  have hbefore : Spares s (s.tickAudio.1.sendStats nowMs) :=
    (tickAudio_spares s).trans (sendStats_spares _ nowMs)
  -- neither the audio nor the reports change who is due what
  obtain ⟨hdirty, hstats⟩ := tickAudio_timers s
  have hsame := tickAudio_sameBacklog s
  have hroster : (s.tickAudio.1.sendStats nowMs).roster = s.roster :=
    (sendStats_sameInfo _ nowMs).roster.trans hsame.roster
  have hdirty' : (s.tickAudio.1.sendStats nowMs).rosterDirty = s.rosterDirty := by
    rw [← hdirty]
    unfold sendStats
    split_ifs <;> rfl
  have hroom : ((s.tickAudio.1.sendStats nowMs).hasRoom fun _ => 0) =
      s.hasRoom (s.statsDue nowMs) := by
    have hdue : s.tickAudio.1.statsDue nowMs = s.statsDue nowMs := by
      unfold statsDue
      rw [hstats]
    rw [hasRoom_sendStats, hdue]
    refine hsame.hasRoom fun m m' hrole hconnected => ?_
    unfold statsDue Member.isActive
    rw [hrole, hconnected]
  rw [← hroster, ← hdirty', ← hroom]
  simp only [tick, tickControl]
  generalize s.tickAudio.1.sendStats nowMs = t at hbefore ⊢
  refine Iff.trans (hafter t.flushRoster) ?_
  exact (lossless_flushRoster t).trans (and_congr_left fun _ => hbefore)

/-- What a call needs of the links: a slot on each whenever something of the room's goes
out to everyone. -/
def RoomIn (s : ServerCore X) (c : Call) : Prop :=
  match c with
  | .tick nowMs => s.rosterDirty → checkLengths (.roster s.roster) = .ok () →
      s.hasRoom (s.statsDue nowMs)
  | .setStreamStatus nowMs destinations =>
    destinations ≠ s.streamStatus ∨ (!destinations.isEmpty &&
      streamStatusIntervalMs ≤ saturatingSub nowMs s.lastStreamStatusMs) →
      checkLengths (.streamStatus destinations) = .ok () → s.hasRoom fun _ => 0
  | .setBroadcastReadiness state =>
    s.broadcastReady ≠ some state → checkLengths (.broadcastReadiness state) = .ok () →
      s.hasRoom fun _ => 0
  | .setRecordStatus state stems =>
    ¬(state = s.recordStatus ∧ stems = s.recordStems) →
      checkLengths (.recordStatus state stems) = .ok () → s.hasRoom fun _ => 0
  | c =>
    match s.batch c with
    | some (t, nowMs, id, msgs) =>
      Meets (fun t msg => (handleControl t nowMs id msg).1) (fun t msg => t.RoomFor nowMs id msg)
        t msgs
    | none => True

theorem lossless_handleTransport (s : ServerCore X) (nowMs : UInt64) (src : SocketAddr)
    (id : MemberId) (counter : UInt64) (ciphertext : Bytes) :
    (s.handleTransport nowMs src id counter ciphertext).1.Lossless ↔ s.Lossless ∧
      match s.openTransport nowMs src id counter ciphertext with
      | (t, some (.ok (some msgs))) =>
        Meets (fun t msg => (handleControl t nowMs id msg).1)
          (fun t msg => t.RoomFor nowMs id msg) t msgs
      | _ => True := by
  have hopened := openTransport_spares s nowMs src id counter ciphertext
  unfold handleTransport
  generalize s.openTransport nowMs src id counter ciphertext = r at hopened ⊢
  match r with
  | (t, none) => exact hopened.lossless trivial
  | (t, some (.error what)) => exact (hopened.trans (violation_spares t nowMs id what)).lossless trivial
  | (t, some (.ok none)) => exact hopened.lossless trivial
  | (t, some (.ok (some msgs))) =>
    refine Iff.trans (flushMemberLink_spares _ nowMs id) ?_
    exact (lossless_handleBatch nowMs id msgs t).trans (and_congr_left fun _ => hopened)

theorem lossless_handleDatagram (s : ServerCore X) (nowMs nowUnix : UInt64) (src : SocketAddr)
    (data ephemeral : Bytes) : (s.handleDatagram nowMs nowUnix src data ephemeral).1.Lossless ↔
      s.Lossless ∧ s.RoomIn (.handleDatagram nowMs nowUnix src data ephemeral) := by
  have hcookie : Spares s (s.cookieRequired nowMs).1 := .of_refused rfl
  simp only [handleDatagram, RoomIn, batch]
  generalize Wire.parse data = parsed
  rcases parsed with e | packet
  · exact Spares.lossless (.refl s) trivial
  · cases packet with
    | handshakeInit version noise =>
      refine Spares.lossless ?_ trivial
      simp only
      split_ifs
      · exact versionReject_spares s nowMs src version noise data
      · exact hcookie.trans (cookieChallenge_spares _ nowMs src data)
      · exact hcookie.trans (admitInit_spares _ nowMs nowUnix src noise ephemeral)
    | cookiedInit cookie version noise =>
      refine Spares.lossless ?_ trivial
      simp only
      split_ifs
      · exact hcookie.trans (admitInit_spares _ nowMs nowUnix src noise ephemeral)
      · exact hcookie
    | transport id counter ciphertext =>
      refine (lossless_handleTransport s nowMs src id counter ciphertext).trans ?_
      simp only
      generalize s.openTransport nowMs src id counter ciphertext = opened
      rcases opened with ⟨t, _ | what | _ | msgs⟩
      · exact Iff.rfl
      · exact Iff.rfl
      · exact Iff.rfl
      · exact Iff.rfl
    | _ => exact Spares.lossless (.refl s) trivial

theorem lossless_step (s : ServerCore X) (c : Call) :
    (s.step c).Lossless ↔ s.Lossless ∧ s.RoomIn c := by
  cases c with
  | handleDatagram nowMs nowUnix src data ephemeral =>
    exact lossless_handleDatagram s nowMs nowUnix src data ephemeral
  | tick nowMs => exact lossless_tick s nowMs
  | shutdown nowMs reason => exact (shutdown_spares s nowMs reason).lossless trivial
  | dropPeer addr => exact (dropPeer_spares s addr).lossless trivial
  | setBroadcastTap on =>
    refine Spares.lossless (.of_refused ?_) trivial
    show (s.setBroadcastTap on).refused = s.refused
    unfold setBroadcastTap
    split <;> rfl
  | setStreamStatus nowMs destinations =>
    show (s.setStreamStatus nowMs destinations).Lossless ↔ _
    simp only [setStreamStatus, RoomIn]
    generalize (!destinations.isEmpty &&
      decide (streamStatusIntervalMs ≤ saturatingSub nowMs s.lastStreamStatusMs)) = due
    split_ifs with hdue
    · refine (lossless_relay _ _).trans (and_congr_right fun _ => ?_)
      exact ⟨fun h _ => h rfl, fun h _ => h hdue⟩
    · exact Spares.lossless (.of_refused rfl) fun h => absurd h hdue
  | setBroadcastReadiness state =>
    show (s.setBroadcastReadiness state).Lossless ↔ _
    unfold setBroadcastReadiness
    split_ifs with hsame
    · exact Spares.lossless (.refl s) fun h => absurd hsame h
    · refine (lossless_relay _ _).trans (and_congr_right fun _ => ?_)
      exact ⟨fun h _ => h rfl, fun h _ => h hsame⟩
  | setRecordStatus state stems =>
    show (s.setRecordStatus state stems).Lossless ↔ _
    unfold setRecordStatus
    split_ifs with hsame
    · exact Spares.lossless (.refl s) fun h => absurd hsame h
    · refine (lossless_relay _ _).trans (and_congr_right fun _ => ?_)
      exact ⟨fun h _ => h rfl, fun h _ => h hsame⟩
  | events => exact Spares.lossless (.of_refused rfl) trivial
  | log line => exact Spares.lossless (.of_refused rfl) trivial

/-- The cap refuses nothing but bulk exactly in the runs that find a slot on every link
each time something of the room's goes out. -/
theorem cap_refuses_only_bulk_iff (X : Externals) (cfg : ServerConfig) (logTail : Option LogTail)
    (jtis : List TokenId) (calls : List Call) :
    (run step (start X cfg logTail jtis) calls).Lossless ↔
      Meets step RoomIn (start X cfg logTail jtis) calls := by
  have hstart : (start X cfg logTail jtis).Lossless := fun r hr => absurd hr List.not_mem_nil
  rw [run_iff_meets lossless_step]
  exact and_iff_right hstart

/-- A member asks for the time as often as there are slots, before a single ack. -/
def pinged : List Call :=
  .handleDatagram 0 0 (Plaintext.addrOf 1) (Plaintext.initOf 1 .musician) [] ::
    ((List.range maxPending).map fun i => Call.handleDatagram 0 0 (Plaintext.addrOf 1)
      (Plaintext.packetOf 1 (UInt64.ofNat i)
        { ack := 0, ackBits := 0, frame := some (UInt64.ofNat i, .ping (UInt32.ofNat i) 0) }) [])

/-- Pings break no rule and cost no allowance, and the roster due next is refused. -/
theorem cap_refuses_only_bulk_full :
    ¬∀ (X : Externals) (cfg : ServerConfig) (logTail : Option LogTail) (jtis : List TokenId)
      (calls : List Call),
      (∀ event ∈ (run step (start X cfg logTail jtis) calls).events,
        ∀ id what, event ≠ .protocolViolation id what) →
      (run step (start X cfg logTail jtis) calls).Lossless := by
  intro h
  have hrun : (run step (start plaintext Plaintext.config none []) (pinged ++ [.tick 5])).events =
      [.memberJoined 1 "member 1", .musicianCountChanged 1] ∧
      ¬(run step (start plaintext Plaintext.config none []) (pinged ++ [.tick 5])).Lossless := by
    decide +kernel
  refine hrun.2 (h plaintext Plaintext.config none [] _ ?_)
  rw [hrun.1]
  rintro event hevent id what rfl
  rcases List.mem_cons.mp hevent with h | h
  · exact nomatch h
  · exact nomatch List.mem_singleton.mp h

end ServerCore
end JamStream.Session
