import JamStream.Session.Calls
import JamStream.Session.Entries
import JamStream.Session.Room
import JamStream.Session.Turns

/-! The core refines the room: each call is a sequence of the room's steps on the
seats, and the count announced last is the last count among the events. -/

namespace JamStream.Session
open Protocol Engine Foundations Relation
variable {X : Externals}

def Member.seat (m : Member X) : Seat Role TokenId :=
  { role := m.role, key := m.jti, taken := m.connected }

structure Member.Cleared (m : Member X) : Prop where
  addr : m.addr = none
  session : m.session = none
  respCache : m.respCache = none
  avatarRx : m.avatarRx = none
  avatarTx : m.avatarTx = []

/-- The same seat, and nothing of a connection where there is none. -/
structure Member.Steady (m m' : Member X) : Prop where
  seat : m'.seat = m.seat
  cleared : m.connected = false → m.Cleared → m'.Cleared

/-- The last count among the events, zero before the first. -/
def lastCount (events : List ServerEvent) : ℕ :=
  (events.filterMap ServerEvent.count?).getLast?.getD 0

theorem lastCount_quiet (events : List ServerEvent) {new : List ServerEvent}
    (h : ∀ event ∈ new, event.count? = none) : lastCount (events ++ new) = lastCount events := by
  unfold lastCount
  rw [List.filterMap_append, List.filterMap_eq_nil_iff.mpr h, List.append_nil]

theorem lastCount_count (events : List ServerEvent) (count : ℕ) :
    lastCount (events ++ [.musicianCountChanged count]) = count := by
  unfold lastCount
  rw [List.filterMap_append]
  simp [ServerEvent.count?]

/-- A token that verifies names the member and the id it was issued for. -/
def Issued (X : Externals) (cfg : ServerConfig) (id : MemberId) (jti : TokenId) : Prop :=
  ∃ token signature nowUnix,
    verifyToken X.toCrypto X.toFormats cfg.issuerPk cfg.sessionId cfg.serverPublic token signature
      nowUnix = .ok () ∧ token.memberId = id ∧ token.jti = jti

abbrev RoomStep (X : Externals) (cfg : ServerConfig) :
    Room MemberId Role TokenId → Room MemberId Role TokenId → Prop :=
  Room.Step cfg.cap .musician (Issued X cfg)

namespace Member

theorem Steady.refl (m : Member X) : m.Steady m := ⟨rfl, fun _ h => h⟩

theorem Steady.trans {a b c : Member X} (h : a.Steady b) (h' : b.Steady c) : a.Steady c where
  seat := h'.seat.trans h.seat
  cleared hconn ha := h'.cleared ((congrArg Seat.taken h.seat).trans hconn) (h.cleared hconn ha)

theorem Steady.of_connected {m m' : Member X} (hconn : m.connected) (h : m'.seat = m.seat) :
    m.Steady m' := ⟨h, fun hc => absurd (hc.symm.trans hconn) Bool.false_ne_true⟩

theorem seat_send (m : Member X) (msg : ControlMsg) : (m.send msg).seat = m.seat := by
  unfold send
  split <;> rfl

theorem steady_send (m : Member X) (msg : ControlMsg) : m.Steady (m.send msg) := by
  refine ⟨seat_send m msg, fun _ h => ?_⟩
  unfold send
  split
  · exact { h with }
  · exact h

theorem seat_post (m : Member X) (id : MemberId) (plain : Bytes) :
    (m.post id plain).1.seat = m.seat := by
  unfold post
  split <;> rfl

theorem seat_postAll (id : MemberId) (plains : List Bytes) (m : Member X) :
    (postAll id plains m).1.seat = m.seat := by
  induction plains generalizing m with
  | nil => rfl
  | cons plain rest ih => exact (ih _).trans (seat_post m id plain)

theorem seat_flush (m : Member X) (id : MemberId) (nowMs : UInt64) :
    (m.flush id nowMs).1.seat = m.seat := seat_postAll id _ _

end Member

namespace ServerCore

def room (s : ServerCore X) : Room MemberId Role TokenId where
  seats id := s.members[id]?.map Member.seat
  barred := s.revoked
  noted := s.lastMusicianCount

theorem connectedIn_eq (s : ServerCore X) (role : Role) (except : Option MemberId) :
    s.connectedIn role except = (s.room.holders role \ {id | except = some id}).ncard := by
  unfold connectedIn
  rw [OrderedMap.countP_toList s.members
    fun id m => except ≠ some id && m.connected && m.role = role]
  congr 1
  ext id
  simp only [Set.mem_ofPred_eq, Set.mem_sdiff, Room.holders, room, Option.map_eq_some_iff,
    Bool.and_eq_true, decide_eq_true_eq]
  constructor
  · rintro ⟨m, hm, ⟨hid, hconn⟩, hrole⟩
    exact ⟨⟨m.seat, ⟨m, hm, rfl⟩, hconn, hrole⟩, hid⟩
  · rintro ⟨⟨seat, ⟨m, hm, rfl⟩, hconn, hrole⟩, hid⟩
    exact ⟨m, hm, ⟨hid, hconn⟩, hrole⟩

theorem musiciansConnected_eq (s : ServerCore X) :
    s.musiciansConnected = s.room.count .musician := by
  unfold musiciansConnected Room.count
  rw [connectedIn_eq]
  simp

abbrev SameSeats : ServerCore X → ServerCore X → Prop := Entries fun _ m m' => m'.seat = m.seat

structure Silent (s s' : ServerCore X) : Prop where
  cfg : s'.cfg = s.cfg
  noted : s'.lastMusicianCount = s.lastMusicianCount
  events : ∃ new, s'.events = s.events ++ new ∧ ∀ event ∈ new, event.count? = none

structure Quiet (s s' : ServerCore X) : Prop extends Silent s s' where
  room : s'.room = s.room

structure Calm (s s' : ServerCore X) : Prop extends Quiet s s' where
  entries : Entries (fun _ => Member.Steady) s s'
  audition : s'.audition = s.audition

variable {s s' s'' : ServerCore X}

theorem Silent.refl (s : ServerCore X) : Silent s s where
  cfg := rfl
  noted := rfl
  events := ⟨[], (List.append_nil _).symm, fun _ h => absurd h List.not_mem_nil⟩

theorem Silent.trans (h : Silent s s') (h' : Silent s' s'') : Silent s s'' where
  cfg := h'.cfg.trans h.cfg
  noted := h'.noted.trans h.noted
  events := by
    obtain ⟨new, hnew, hcount⟩ := h.events
    obtain ⟨new', hnew', hcount'⟩ := h'.events
    refine ⟨new ++ new', ?_, fun event hmem => ?_⟩
    · rw [hnew', hnew, List.append_assoc]
    · exact (List.mem_append.mp hmem).elim (hcount event) (hcount' event)

theorem Silent.emit (s : ServerCore X) {event : ServerEvent} (h : event.count? = none) :
    Silent s (s.emit event) :=
  { Silent.refl s with
    events := ⟨[event], rfl, fun _ hmem => List.mem_singleton.mp hmem ▸ h⟩ }

theorem Silent.of_eq (hcfg : s'.cfg = s.cfg) (hnoted : s'.lastMusicianCount = s.lastMusicianCount)
    (hevents : s'.events = s.events) : Silent s s' where
  cfg := hcfg
  noted := hnoted
  events := ⟨[], by rw [hevents, List.append_nil], fun _ h => absurd h List.not_mem_nil⟩

theorem Silent.emitRoster (h : Silent s s') {event : ServerEvent} (hcount : event.count? = none) :
    Silent s (s'.emit event).queueRoster :=
  (h.trans (.emit s' hcount)).trans (.of_eq rfl rfl rfl)

theorem Quiet.refl (s : ServerCore X) : Quiet s s := { Silent.refl s with room := rfl }

theorem Quiet.trans (h : Quiet s s') (h' : Quiet s' s'') : Quiet s s'' :=
  { h.toSilent.trans h'.toSilent with room := h'.room.trans h.room }

theorem Quiet.emit (s : ServerCore X) {event : ServerEvent} (h : event.count? = none) :
    Quiet s (s.emit event) := { Silent.emit s h with room := rfl }

theorem SameSeats.seats (h : SameSeats s s') : s'.room.seats = s.room.seats := by
  funext id
  show s'.members[id]?.map Member.seat = s.members[id]?.map Member.seat
  have hrel := h id
  revert hrel
  generalize s.members[id]? = a, s'.members[id]? = b
  rintro (hr | _)
  · exact congrArg some hr
  · rfl

theorem Quiet.of_seats (hseats : SameSeats s s') (hcfg : s'.cfg = s.cfg)
    (hrevoked : s'.revoked = s.revoked) (hnoted : s'.lastMusicianCount = s.lastMusicianCount)
    (hevents : s'.events = s.events) : Quiet s s' :=
  { Silent.of_eq hcfg hnoted hevents with
    room := Room.ext hseats.seats
      (congrArg (fun f : Finset TokenId => (f : Set TokenId)) hrevoked) hnoted }

theorem Quiet.of_eq (hcfg : s'.cfg = s.cfg) (hmembers : s'.members = s.members)
    (hrevoked : s'.revoked = s.revoked) (hnoted : s'.lastMusicianCount = s.lastMusicianCount)
    (hevents : s'.events = s.events) : Quiet s s' :=
  .of_seats (.of_eq (fun _ _ => rfl) hmembers) hcfg hrevoked hnoted hevents

theorem Quiet.update (s : ServerCore X) (id : MemberId) {f : Member X → Member X}
    (hf : ∀ m, (f m).seat = m.seat) : Quiet s (s.update id f) :=
  .of_seats (entries_update (fun _ _ => rfl) fun m _ => hf m) rfl rfl rfl rfl

theorem room_disconnectMember (s : ServerCore X) (id : MemberId) :
    (s.disconnectMember id).room = s.room.leave id := by
  refine Room.ext ?_ ?_ ?_
  · funext id'
    rw [Room.leave_seats]
    by_cases h : s.isConnected id
    · show (s.disconnectMember id).members[id']?.map Member.seat = _
      unfold disconnectMember
      rw [if_pos h]
      show (s.update id Member.disconnect).members[id']?.map Member.seat = _
      rw [members_update]
      by_cases hid : id = id'
      · subst hid
        rw [if_pos rfl, if_pos rfl, Option.map_map]
        show _ = (s.members[id]?.map Member.seat).map _
        rw [Option.map_map]
        rfl
      · rw [if_neg hid, if_neg (Ne.symm hid)]
        rfl
    · -- not connected: the seat is not taken, so nothing changes
      have hsame : s.disconnectMember id = s := if_neg h
      rw [hsame]
      split_ifs with hid
      · subst hid
        show s.members[id']?.map Member.seat = (s.members[id']?.map Member.seat).map _
        cases hm : s.members[id']? with
        | none => rfl
        | some m =>
          have hconn : m.connected = false := by
            rw [isConnected_iff] at h
            exact Bool.eq_false_iff.mpr fun hc => h ⟨m, hm, hc⟩
          show some m.seat = some { m.seat with taken := false }
          rw [← hconn]
          rfl
      · rfl
  · unfold disconnectMember
    by_cases h : s.isConnected id
    · rw [if_pos h]
      rfl
    · rw [if_neg h]
      rfl
  · unfold disconnectMember
    by_cases h : s.isConnected id
    · rw [if_pos h]
      rfl
    · rw [if_neg h]
      rfl

theorem Silent.disconnectMember (s : ServerCore X) (id : MemberId) :
    Silent s (s.disconnectMember id) := by
  unfold ServerCore.disconnectMember
  by_cases h : s.isConnected id
  · rw [if_pos h]
    exact .of_eq rfl rfl rfl
  · rw [if_neg h]
    exact .refl s

theorem room_note (s : ServerCore X) :
    s.noteMusicianCount.room = Room.note .musician s.room := by
  unfold noteMusicianCount
  split_ifs with h
  · exact Room.ext rfl rfl s.musiciansConnected_eq
  · rw [ne_eq, not_not] at h
    exact Room.ext rfl rfl (h.symm.trans s.musiciansConnected_eq)

theorem Calm.refl (s : ServerCore X) : Calm s s :=
  { Quiet.refl s with
    entries := .of_eq (fun _ => Member.Steady.refl) rfl
    audition := rfl }

theorem Calm.trans (h : Calm s s') (h' : Calm s' s'') : Calm s s'' :=
  { h.toQuiet.trans h'.toQuiet with
    entries := h.entries.trans (fun _ _ _ _ => Member.Steady.trans) h'.entries
    audition := h'.audition.trans h.audition }

theorem Calm.of_entries (hentries : Entries (fun _ => Member.Steady) s s')
    (hcfg : s'.cfg = s.cfg) (hrevoked : s'.revoked = s.revoked)
    (hnoted : s'.lastMusicianCount = s.lastMusicianCount) (hevents : s'.events = s.events)
    (haudition : s'.audition = s.audition) : Calm s s' :=
  { Quiet.of_seats (hentries.mono fun _ _ _ h => h.seat) hcfg hrevoked hnoted hevents with
    entries := hentries
    audition := haudition }

theorem Calm.of_eq (hmembers : s'.members = s.members) (hcfg : s'.cfg = s.cfg)
    (hrevoked : s'.revoked = s.revoked) (hnoted : s'.lastMusicianCount = s.lastMusicianCount)
    (hevents : s'.events = s.events) (haudition : s'.audition = s.audition) : Calm s s' :=
  .of_entries (.of_eq (fun _ => Member.Steady.refl) hmembers) hcfg hrevoked hnoted hevents
    haudition

theorem Calm.update (s : ServerCore X) (id : MemberId) {f : Member X → Member X}
    (hf : ∀ m, s.members[id]? = some m → m.Steady (f m)) : Calm s (s.update id f) :=
  .of_entries (entries_update (fun _ => Member.Steady.refl) hf) rfl rfl rfl rfl rfl

theorem Calm.queue (s : ServerCore X) (id : MemberId) (msg : ControlMsg) :
    Calm s (s.queue id msg) :=
  .of_entries (entries_queue (fun _ => Member.Steady.refl) fun m => m.steady_send msg)
    rfl rfl rfl rfl rfl

theorem Calm.each (s : ServerCore X)
    {f : MemberId → Member X → Member X × Outgoing × List Refusal}
    (hf : ∀ id (m : Member X), m.Steady (f id m).1) : Calm s (s.each f).1 :=
  .of_entries (entries_each hf) rfl rfl rfl rfl rfl

theorem Calm.relay (s : ServerCore X) (msg : ControlMsg) : Calm s (s.relay msg) :=
  .of_entries (entries_relay (fun _ => Member.Steady.refl) fun _ m => m.steady_send msg)
    rfl rfl rfl rfl rfl

theorem Calm.map (s : ServerCore X) {g : MemberId → Member X → Member X}
    (hg : ∀ id (m : Member X), m.Steady (g id m)) : Calm s { s with members := s.members.map g } :=
  .of_entries (entries_map hg fun _ => Std.ExtTreeMap.getElem?_map) rfl rfl rfl rfl rfl

theorem Calm.flushMemberLink (s : ServerCore X) (nowMs : UInt64) (id : MemberId) :
    Calm s (s.flushMemberLink nowMs id).1 := by
  unfold ServerCore.flushMemberLink
  split
  · exact .refl s
  · rename_i m hm
    split_ifs with hconn
    · refine .update s id fun m' hm' => ?_
      obtain rfl := Option.some.inj (hm.symm.trans hm')
      exact .of_connected hconn (m.seat_flush id nowMs)
    · exact .refl s

theorem Calm.farewell (s : ServerCore X) (nowMs : UInt64) (id : MemberId) (reason : String) :
    Calm s (s.farewell nowMs id reason).1 := by
  unfold ServerCore.farewell
  split_ifs
  · exact (Calm.queue s id _).trans (.flushMemberLink _ nowMs id)
  · exact .refl s

/-- The count announced last, over the events drained so far and those waiting. -/
def Tallied (drained : List ServerEvent) (s : ServerCore X) : Prop :=
  lastCount (drained ++ s.events) = s.lastMusicianCount

theorem Silent.tallied {drained : List ServerEvent} (h : Silent s s') (ht : Tallied drained s) :
    Tallied drained s' := by
  obtain ⟨new, hnew, hcount⟩ := h.events
  unfold Tallied
  rw [hnew, ← List.append_assoc, lastCount_quiet _ hcount, h.noted]
  exact ht

theorem tallied_note {drained : List ServerEvent} (ht : Tallied drained s) :
    Tallied drained s.noteMusicianCount := by
  unfold noteMusicianCount
  split_ifs
  · show lastCount (drained ++ (s.events ++ [_])) = s.musiciansConnected
    rw [← List.append_assoc, lastCount_count]
  · exact ht

end ServerCore
end JamStream.Session
