import JamStream.Session.Seating

/-! Turns, and with them control traffic, refine the room. The same induction carries a
second law: whoever is not connected has nothing left of a connection, as long as the
messages handled are those of connected members. -/

namespace JamStream.Session
open Protocol Engine Foundations Relation
variable {X : Externals}

namespace ServerCore
variable {s s' s'' : ServerCore X}

structure Refines (s s' : ServerCore X) : Prop where
  cfg : s'.cfg = s.cfg
  steps : ReflTransGen (RoomStep X s.cfg) s.room s'.room
  tallied : ∀ drained, Tallied drained s → Tallied drained s'

theorem Refines.trans (h : Refines s s') (h' : Refines s' s'') : Refines s s'' where
  cfg := h'.cfg.trans h.cfg
  steps := h.steps.trans (h.cfg ▸ h'.steps)
  tallied drained ht := h'.tallied drained (h.tallied drained ht)

theorem Quiet.refines (h : Quiet s s') : Refines s s' where
  cfg := h.cfg
  steps := by rw [h.room]
  tallied _ := h.toSilent.tallied

theorem Refines.refl (s : ServerCore X) : Refines s s := (Quiet.refl s).refines

theorem Refines.note {t : ServerCore X} (hs : Silent s t)
    (hstep : RoomStep X s.cfg s.room (Room.note .musician t.room)) :
    Refines s t.noteMusicianCount where
  cfg := by
    unfold noteMusicianCount
    split_ifs <;> exact hs.cfg
  steps := by
    rw [room_note]
    exact .single hstep
  tallied _ ht := tallied_note (hs.tallied ht)

theorem Refines.leave (s : ServerCore X) (id : MemberId) {event : ServerEvent}
    (h : event.count? = none) :
    Refines s (((s.disconnectMember id).emit event).queueRoster).noteMusicianCount := by
  refine .note ((Silent.disconnectMember s id).emitRoster h) ?_
  have hroom : (((s.disconnectMember id).emit event).queueRoster).room = s.room.leave id :=
    room_disconnectMember s id
  rw [hroom]
  exact .leave s.room [id]

theorem revoke_barred (s : ServerCore X) (jti : TokenId) :
    ∃ t, t = (if jti ∈ s.revoked then s
      else { s with revoked := insert jti s.revoked }.emit (.tokenRevoked jti)) ∧
    Silent s t ∧ t.room = s.room.bar jti ∧ t.members = s.members := by
  refine ⟨_, rfl, ?_⟩
  split_ifs with h
  · refine ⟨.refl s, Room.ext rfl ?_ rfl, rfl⟩
    exact (Set.insert_eq_of_mem (Finset.mem_coe.mpr h)).symm
  · have hgrown : Silent s { s with revoked := insert jti s.revoked } := .of_eq rfl rfl rfl
    refine ⟨hgrown.trans (.emit _ rfl), Room.ext rfl ?_ rfl, rfl⟩
    exact Finset.coe_insert jti s.revoked

theorem Refines.revoke (s : ServerCore X) (nowMs : UInt64) (jti : TokenId) :
    Refines s (s.revoke nowMs jti).1 := by
  obtain ⟨t, ht, hsilent, hroom, hmembers⟩ := revoke_barred s jti
  simp only [ServerCore.revoke]
  rw [← ht, hmembers]
  cases hfind : s.members.toList.find? fun e => e.2.jti = jti with
  | none =>
    refine ⟨hsilent.cfg, ?_, fun _ => hsilent.tallied⟩
    show ReflTransGen _ s.room t.room
    rw [hroom]
    refine .single (.bar s.room jti fun id seat hseat hkey => ?_)
    obtain ⟨m, hm, rfl⟩ := Option.map_eq_some_iff.mp hseat
    have hno := List.find?_eq_none.mp hfind (id, m)
      (Std.ExtTreeMap.mem_toList_iff_getElem?_eq_some.mpr hm)
    exact hno (decide_eq_true hkey)
  | some e =>
    obtain ⟨id, m⟩ := e
    have hm : s.members[id]? = some m :=
      Std.ExtTreeMap.mem_toList_iff_getElem?_eq_some.mp (List.mem_of_find?_eq_some hfind)
    have hjti : m.jti = jti :=
      of_decide_eq_true (List.find?_some (p := fun e : MemberId × Member X => e.2.jti = jti) hfind)
    have hfarewell := (Calm.farewell t nowMs id "invite revoked").toQuiet
    -- up to the count: the farewell, then the seat is gone and the event raised
    have hgone : Silent s ((t.farewell nowMs id "invite revoked").1.unseat id) :=
      (hsilent.trans hfarewell.toSilent).trans (.of_eq rfl rfl rfl)
    refine .note (hgone.emitRoster rfl) ?_
    have hevict : RoomStep X s.cfg s.room
        (Room.note .musician ((s.room.bar m.seat.key).vacate id)) :=
      .evict s.room id m.seat (congrArg (Option.map Member.seat) hm)
    convert hevict using 2
    have hkept := hfarewell.room.trans hroom
    refine Room.ext ?_ ?_ ?_
    · funext id'
      rw [Room.vacate_seats]
      show ((t.farewell nowMs id "invite revoked").1.members.erase id)[id']?.map Member.seat = _
      rw [OrderedMap.getElem?_erase]
      by_cases hid : id = id'
      · rw [if_pos hid, if_pos hid.symm]
        rfl
      · rw [if_neg hid, if_neg (Ne.symm hid)]
        exact congrFun (congrArg Room.seats hkept) id'
    · show (t.farewell nowMs id "invite revoked").1.room.barred = _
      rw [hkept, ← hjti]
      rfl
    · show (t.farewell nowMs id "invite revoked").1.room.noted = _
      rw [hkept]
      rfl

theorem Turn.quiet_or_departure {nowMs : UInt64} {sender : MemberId} {live leaving : Prop}
    {msg : ControlMsg} (h : Turn nowMs sender live leaving msg s s') :
    Quiet s s' ∨ leaving ∧
      ((∃ event, ServerEvent.count? event = none ∧
        s' = (((s.disconnectMember sender).emit event).queueRoster).noteMusicianCount) ∨
      ∃ jti, s' = (s.revoke nowMs jti).1) := by
  cases h with
  | settings f hf =>
    refine .inl (Quiet.update s sender fun m => ?_)
    rw [hf m]
    rfl
  | trains id f hf hlive =>
    refine .inl (Quiet.update s id fun m => ?_)
    rw [hf m]
    rfl
  | queue id m hm => exact .inl (Calm.queue s id m).toQuiet
  | relay m hm => exact .inl (Calm.relay s m).toQuiet
  | emit event hcount hhost => exact .inl (Quiet.emit s hcount)
  | roster => exact .inl (.of_eq rfl rfl rfl rfl rfl)
  | store cache waiters => exact .inl (.of_eq rfl rfl rfl rfl rfl)
  | host metronome enabled faders hhost => exact .inl (.of_eq rfl rfl rfl rfl rfl)
  | audition on hhost hlive => exact .inl (.of_eq rfl rfl rfl rfl rfl)
  | leave event hcount hhost hleave => exact .inr ⟨hleave, .inl ⟨event, hcount, rfl⟩⟩
  | revoke jti hhost hmsg hleave => exact .inr ⟨hleave, .inr ⟨jti, rfl⟩⟩

theorem Turn.refines {nowMs : UInt64} {sender : MemberId} {live leaving : Prop} {msg : ControlMsg}
    (h : Turn nowMs sender live leaving msg s s') : Refines s s' := by
  rcases h.quiet_or_departure with hquiet | ⟨-, ⟨event, hcount, rfl⟩ | ⟨jti, rfl⟩⟩
  · exact hquiet.refines
  · exact .leave s sender hcount
  · exact .revoke s nowMs jti

theorem Turns.quiet {nowMs : UInt64} {sender : MemberId} {live : Prop} {msg : ControlMsg}
    (h : Turns nowMs sender live False msg s s') : Quiet s s' := by
  induction h with
  | refl => exact .refl s
  | tail _ hturn ih =>
    rcases hturn.quiet_or_departure with hquiet | ⟨hleave, -⟩
    · exact ih.trans hquiet
    · exact hleave.elim

theorem Turns.refines {nowMs : UInt64} {sender : MemberId} {live leaving : Prop} {msg : ControlMsg}
    (h : Turns nowMs sender live leaving msg s s') : Refines s s' := by
  induction h with
  | refl => exact .refl s
  | tail _ hturn ih => exact ih.trans hturn.refines

theorem Refines.handleBatch (nowMs : UInt64) (sender : MemberId) (msgs : List ControlMsg)
    (s : ServerCore X) : Refines s (handleBatch nowMs sender msgs s).1 := by
  induction msgs generalizing s with
  | nil => exact .refl s
  | cons msg rest ih => exact (handleControl_turns s nowMs sender msg).refines.trans (ih _)

/-- Nothing is held for members who are not connected, the host's audition included. -/
structure Released (s : ServerCore X) : Prop where
  cleared : ∀ (id : MemberId) (m : Member X),
    s.members[id]? = some m → m.connected = false → m.Cleared
  audition : s.isConnected hostMemberId = false → s.audition = false

theorem isConnected_of_entries (h : Entries (fun _ => Member.Steady) s s') (id : MemberId) :
    s'.isConnected id = s.isConnected id := by
  unfold isConnected
  have hrel := h id
  revert hrel
  generalize s.members[id]? = a, s'.members[id]? = b
  rintro (hr | _)
  · exact congrArg Seat.taken hr.seat
  · rfl

theorem Released.of_entries (hs : s.Released) (h : Entries (fun _ => Member.Steady) s s')
    (haudition : s.isConnected hostMemberId = false → s'.audition = false) : s'.Released where
  cleared id m' hm' hconn := by
    obtain ⟨m, hm, hsteady⟩ := h.some_after hm'
    have hgone : m.connected = false := (congrArg Seat.taken hsteady.seat).symm.trans hconn
    exact hsteady.cleared hgone (hs.cleared id m hm hgone)
  audition hhost := haudition ((isConnected_of_entries h hostMemberId).symm.trans hhost)

theorem Released.of_eq (hs : s.Released) (hmembers : s'.members = s.members)
    (haudition : s'.audition = s.audition) : s'.Released :=
  hs.of_entries (.of_eq (fun _ => Member.Steady.refl) hmembers)
    fun h => haudition.trans (hs.audition h)

theorem Calm.released (h : Calm s s') (hs : s.Released) : s'.Released :=
  hs.of_entries h.entries fun hhost => h.audition.trans (hs.audition hhost)

theorem disconnectMember_members (s : ServerCore X) (id id' : MemberId) :
    (s.disconnectMember id).members[id']? =
      if id = id' ∧ s.isConnected id then s.members[id']?.map Member.disconnect
      else s.members[id']? := by
  unfold disconnectMember
  by_cases h : s.isConnected id
  · rw [if_pos h]
    simp only [h, and_true]
    exact members_update s id id' Member.disconnect
  · rw [if_neg h, if_neg fun hc => h hc.2]

theorem Released.disconnectMember (hs : s.Released) (id : MemberId) :
    (s.disconnectMember id).Released where
  cleared id' m' hm' hconn := by
    rw [disconnectMember_members] at hm'
    split_ifs at hm'
    · obtain ⟨m, -, rfl⟩ := Option.map_eq_some_iff.mp hm'
      exact ⟨rfl, rfl, rfl, rfl, rfl⟩
    · exact hs.cleared id' m' hm' hconn
  audition hhost := by
    by_cases h : s.isConnected id
    · by_cases hid : id = hostMemberId
      · unfold ServerCore.disconnectMember
        rw [if_pos h]
        exact if_pos hid
      · -- somebody else left, and the host was not there before either
        have hbefore : s.isConnected hostMemberId = false := by
          unfold isConnected at hhost ⊢
          rwa [disconnectMember_members, if_neg fun hc => hid hc.1] at hhost
        unfold ServerCore.disconnectMember
        rw [if_pos h]
        exact (if_neg hid).trans (hs.audition hbefore)
    · have hsame : s.disconnectMember id = s := if_neg h
      rw [hsame] at hhost ⊢
      exact hs.audition hhost

theorem Released.note (hs : s.Released) : s.noteMusicianCount.Released := by
  unfold noteMusicianCount
  split_ifs
  · exact hs.of_eq rfl rfl
  · exact hs

theorem Released.unseat (hs : s.Released) (id : MemberId) : (s.unseat id).Released where
  cleared id' m hm hconn := by
    have hm' : (s.members.erase id)[id']? = some m := hm
    rw [OrderedMap.getElem?_erase] at hm'
    split_ifs at hm'
    exact hs.cleared id' m hm' hconn
  audition hhost := by
    show (if id = hostMemberId then false else s.audition) = false
    split_ifs with hid
    · rfl
    · refine hs.audition ?_
      have hhost' : (s.members.erase id)[hostMemberId]?.any Member.connected = false := hhost
      rwa [OrderedMap.getElem?_erase, if_neg hid] at hhost'

theorem Released.revoke (hs : s.Released) (nowMs : UInt64) (jti : TokenId) :
    (s.revoke nowMs jti).1.Released := by
  have hbarred : (if jti ∈ s.revoked then s
      else { s with revoked := insert jti s.revoked }.emit (.tokenRevoked jti)).Released := by
    split_ifs
    · exact hs
    · exact hs.of_eq rfl rfl
  simp only [ServerCore.revoke]
  generalize (if jti ∈ s.revoked then s
    else { s with revoked := insert jti s.revoked }.emit (.tokenRevoked jti)) = t at hbarred ⊢
  split
  · exact hbarred
  · rename_i id m _
    have hfarewell := (Calm.farewell t nowMs id "invite revoked").released hbarred
    refine .note ?_
    exact (hfarewell.unseat id).of_eq rfl rfl

theorem Turn.released {nowMs : UInt64} {sender : MemberId} {live leaving : Prop} {msg : ControlMsg}
    (hlive : live) (h : Turn nowMs sender live leaving msg s s') (hs : s.Released) : s'.Released := by
  cases h with
  | settings f hf =>
    refine (Calm.update s sender fun m _ => ?_).released hs
    rw [hf m]
    exact ⟨rfl, fun _ h => { h with }⟩
  | trains id f hf htrains =>
    -- trains move only for the connected
    refine (Calm.update s id fun m hm => ?_).released hs
    obtain ⟨m', hm', hconn⟩ := isConnected_iff.mp (htrains hlive)
    obtain rfl := Option.some.inj (hm.symm.trans hm')
    rw [hf m]
    exact .of_connected hconn rfl
  | queue id m hm => exact (Calm.queue s id m).released hs
  | relay m hm => exact (Calm.relay s m).released hs
  | emit event hcount hhost => exact hs.of_eq rfl rfl
  | roster => exact hs.of_eq rfl rfl
  | store cache waiters => exact hs.of_eq rfl rfl
  | host metronome enabled faders hhost => exact hs.of_eq rfl rfl
  | audition on hhost hconn =>
    refine hs.of_entries (.of_eq (fun _ => Member.Steady.refl) rfl) fun hgone => ?_
    rw [← hhost, hconn hlive] at hgone
    exact absurd hgone Bool.false_ne_true.symm
  | leave event hcount hhost hleave =>
    refine .note ?_
    exact (hs.disconnectMember sender).of_eq rfl rfl
  | revoke jti hhost hmsg hleave => exact hs.revoke nowMs jti

structure Orderly (s s' : ServerCore X) : Prop extends Refines s s' where
  released : s.Released → s'.Released

theorem Orderly.trans (h : Orderly s s') (h' : Orderly s' s'') : Orderly s s'' :=
  { h.toRefines.trans h'.toRefines with released := fun hs => h'.released (h.released hs) }

theorem Calm.orderly (h : Calm s s') : Orderly s s' :=
  { h.toQuiet.refines with released := h.released }

theorem Orderly.refl (s : ServerCore X) : Orderly s s := (Calm.refl s).orderly

theorem Orderly.note {t : ServerCore X} (hs : Silent s t)
    (hstep : RoomStep X s.cfg s.room (Room.note .musician t.room))
    (hreleased : s.Released → t.Released) : Orderly s t.noteMusicianCount :=
  { Refines.note hs hstep with released := fun h => (hreleased h).note }

theorem Turns.orderly {nowMs : UInt64} {sender : MemberId} {live leaving : Prop} {msg : ControlMsg}
    (hlive : live) (h : Turns nowMs sender live leaving msg s s') : Orderly s s' := by
  induction h with
  | refl => exact .refl s
  | tail _ hturn ih =>
    exact ih.trans { hturn.refines with released := hturn.released hlive }

theorem Orderly.violation (s : ServerCore X) (nowMs : UInt64) (id : MemberId) (what : String) :
    Orderly s (s.violation nowMs id what) := by
  -- whatever the message was, its sender is charged the same
  have hturns : Turns nowMs id True True (.bye what) s (s.violation nowMs id what) :=
    violation_turns trivial s what
  exact hturns.orderly trivial

end ServerCore
end JamStream.Session
