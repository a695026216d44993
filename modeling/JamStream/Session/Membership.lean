import JamStream.Session.Orderly
import JamStream.Session.Plaintext

/-! What follows from the room for every run of the core: its capacity, the count it
announces, and the permanence of a revocation. -/

namespace JamStream.Session
open Protocol Engine Foundations Relation Runs
variable {X : Externals}

namespace ServerCore

theorem start_sound (X : Externals) (cfg : ServerConfig) (logTail : Option LogTail)
    (jtis : List TokenId) : Room.Sound cfg.cap .musician (start X cfg logTail jtis).room := by
  have hseats : (start X cfg logTail jtis).room.seats = fun _ => none := by
    funext id
    show (∅ : Std.ExtTreeMap MemberId (Member X))[id]?.map Member.seat = none
    rw [Std.ExtTreeMap.getElem?_empty]
    rfl
  have hholders : ∀ role, (start X cfg logTail jtis).room.holders role = ∅ := by
    intro role
    refine Set.eq_empty_of_forall_notMem ?_
    rintro id ⟨seat, hseat, -⟩
    rw [hseats] at hseat
    exact Option.some_ne_none seat hseat.symm
  refine ⟨?_, fun role => ?_, ?_⟩
  · rw [hseats]
    simp
  · unfold Room.count
    rw [hholders, Set.ncard_empty]
    exact Nat.zero_le _
  · show 0 = Room.count _ _
    unfold Room.count
    rw [hholders, Set.ncard_empty]

theorem run_room (s : ServerCore X) (calls : List Call) :
    (run step s calls).cfg = s.cfg ∧
      ReflTransGen (RoomStep X s.cfg) s.room (run step s calls).room := by
  induction calls generalizing s with
  | nil => exact ⟨rfl, .refl⟩
  | cons c rest ih =>
    obtain ⟨hcfg, hstep⟩ := step_room s c
    obtain ⟨hcfg', hrest⟩ := ih (s.step c)
    rw [hcfg] at hrest
    exact ⟨hcfg'.trans hcfg, hstep.trans hrest⟩

theorem run_sound (X : Externals) (cfg : ServerConfig) (logTail : Option LogTail)
    (jtis : List TokenId) (calls : List Call) :
    Room.Sound cfg.cap .musician (run step (start X cfg logTail jtis) calls).room :=
  reflTransGen_invariant (fun _ _ h hs => h.step hs) (start_sound X cfg logTail jtis)
    (run_room (start X cfg logTail jtis) calls).2

/-- No run of the core seats more of a role than the session was opened for. -/
theorem room_capacity (X : Externals) (cfg : ServerConfig) (logTail : Option LogTail)
    (jtis : List TokenId) (calls : List Call) :
    (run step (start X cfg logTail jtis) calls).connectedIn .musician none ≤ cfg.maxMusicians ∧
    (run step (start X cfg logTail jtis) calls).connectedIn .listener none ≤ cfg.maxListeners := by
  have hfits : ∀ role, (run step (start X cfg logTail jtis) calls).connectedIn role none ≤
      cfg.cap role := by
    intro role
    rw [connectedIn_eq]
    calc ((run step (start X cfg logTail jtis) calls).room.holders role \ _).ncard
        = (run step (start X cfg logTail jtis) calls).room.count role := by simp [Room.count]
      _ ≤ cfg.cap role := (run_sound X cfg logTail jtis calls).fits role
  exact ⟨hfits .musician, hfits .listener⟩

def drained : ServerCore X → List Call → List ServerEvent
  | _, [] => []
  | s, .events :: rest => s.events ++ drained (s.step .events) rest
  | s, c :: rest => drained (s.step c) rest

/-- Everything emitted so far: drained, or waiting to be. -/
def emitted (s : ServerCore X) (calls : List Call) : List ServerEvent :=
  drained s calls ++ (run step s calls).events

theorem run_tallied (calls : List Call) {s : ServerCore X} {before : List ServerEvent}
    (h : Tallied before s) : Tallied (before ++ drained s calls) (run step s calls) := by
  induction calls generalizing s before with
  | nil =>
    rw [drained, List.append_nil]
    exact h
  | cons c rest ih =>
    rw [run_cons]
    by_cases hc : c = .events
    · subst hc
      rw [drained, ← List.append_assoc]
      refine ih ?_
      show lastCount (before ++ s.events ++ []) = s.lastMusicianCount
      rw [List.append_nil]
      exact h
    · have hdrained : drained s (c :: rest) = drained (s.step c) rest := by
        rw [drained]
        exact hc
      rw [hdrained]
      exact ih ((Refines.step s hc).tallied before h)

/-- After every call, the count announced last is the number of musicians connected. -/
theorem musician_count_never_drifts (X : Externals) (cfg : ServerConfig)
    (logTail : Option LogTail) (jtis : List TokenId) (calls : List Call) :
    lastCount (emitted (start X cfg logTail jtis) calls) =
      (run step (start X cfg logTail jtis) calls).musiciansConnected := by
  have htally : Tallied [] (start X cfg logTail jtis) := rfl
  have hrun := run_tallied calls htally
  rw [List.nil_append] at hrun
  calc lastCount (emitted (start X cfg logTail jtis) calls)
      = (run step (start X cfg logTail jtis) calls).lastMusicianCount := hrun
    _ = (run step (start X cfg logTail jtis) calls).room.count .musician :=
      (run_sound X cfg logTail jtis calls).noted
    _ = (run step (start X cfg logTail jtis) calls).musiciansConnected :=
      (musiciansConnected_eq _).symm

theorem Refines.revoked {s s' : ServerCore X} (h : Refines s s') {jti : TokenId}
    (hjti : jti ∈ s.revoked) : jti ∈ s'.revoked :=
  Finset.mem_coe.mp (reflTransGen_invariant (P := fun r => jti ∈ r.barred)
    (fun _ _ hmem hs => Room.barred_mono hs hmem) (Finset.mem_coe.mpr hjti) h.steps)

theorem run_revoked (s : ServerCore X) (calls : List Call) {jti : TokenId}
    (hjti : jti ∈ s.revoked) : jti ∈ (run step s calls).revoked :=
  Finset.mem_coe.mp (reflTransGen_invariant (P := fun r => jti ∈ r.barred)
    (fun _ _ hmem hs => Room.barred_mono hs hmem) (Finset.mem_coe.mpr hjti) (run_room s calls).2)

theorem revoke_revokes (s : ServerCore X) (nowMs : UInt64) (jti : TokenId) :
    jti ∈ (s.revoke nowMs jti).1.revoked := by
  obtain ⟨t, ht, -, hroom, -⟩ := revoke_barred s jti
  have hbarred : jti ∈ t.room.barred := by
    rw [hroom]
    exact Set.mem_insert jti _
  simp only [revoke]
  rw [← ht]
  split
  · exact Finset.mem_coe.mp hbarred
  · rename_i id m _
    have hfarewell := Calm.farewell t nowMs id "invite revoked"
    rw [← Finset.mem_coe]
    show jti ∈ ((((t.farewell nowMs id "invite revoked").1.unseat id).emit
      (.memberRevoked id)).queueRoster).noteMusicianCount.room.barred
    rw [room_note]
    show jti ∈ (t.farewell nowMs id "invite revoked").1.room.barred
    rwa [hfarewell.room]

theorem handleBatch_revokes (nowMs : UInt64) {jti : TokenId} {msgs : List ControlMsg}
    (hmem : .revoke jti ∈ msgs) (s : ServerCore X) :
    jti ∈ (handleBatch nowMs hostMemberId msgs s).1.revoked := by
  induction msgs generalizing s with
  | nil => exact absurd hmem List.not_mem_nil
  | cons msg rest ih =>
    rcases List.mem_cons.mp hmem with rfl | hmem
    · refine (Refines.handleBatch nowMs hostMemberId rest _).revoked ?_
      exact revoke_revokes s nowMs jti
    · exact ih hmem _

def IsInitOf (data noise : Bytes) : Prop :=
  (∃ version, Wire.parse data = .ok (.handshakeInit version noise)) ∨
    ∃ cookie version, Wire.parse data = .ok (.cookiedInit cookie version noise)

def BringsToken (X : Externals) (cfg : ServerConfig) (noise : Bytes) (jti : TokenId) : Prop :=
  ∃ hp, ∃ responder : Responder X.toCrypto,
    Responder.readInit X.toFormats cfg.serverPrivate cfg.sessionId protocolVersion noise =
      .ok (hp, responder) ∧ hp.token.jti = jti

theorem initBudgetTake_members (s : ServerCore X) (nowMs : UInt64) (src : SocketAddr) :
    (s.initBudgetTake nowMs src).1.members = s.members ∧
      (s.initBudgetTake nowMs src).1.revoked = s.revoked ∧
      (s.initBudgetTake nowMs src).1.cfg = s.cfg := by
  simp only [initBudgetTake]
  split_ifs <;> exact ⟨rfl, rfl, rfl⟩

theorem admitInit_revoked {s : ServerCore X} {noise : Bytes} {jti : TokenId}
    (hbrings : BringsToken X s.cfg noise jti) (hjti : jti ∈ s.revoked) (nowMs nowUnix : UInt64)
    (src : SocketAddr) (ephemeral : Bytes) :
    (s.admitInit nowMs nowUnix src noise ephemeral).1.members = s.members ∧
      (s.admitInit nowMs nowUnix src noise ephemeral).2 = [] := by
  obtain ⟨hp, responder, hread, rfl⟩ := hbrings
  obtain ⟨hmembers, hrevoked, hcfg⟩ := initBudgetTake_members s nowMs src
  simp only [admitInit]
  rw [hcfg, hread]
  split
  · exact ⟨hmembers, rfl⟩
  · simp only
    split
    · exact ⟨hmembers, rfl⟩
    · have hin : hp.token.jti ∈ (s.initBudgetTake nowMs src).1.revoked := by rwa [hrevoked]
      simp only [admitToken]
      rw [if_pos hin]
      exact ⟨hmembers, rfl⟩

theorem takeRejectTurn_members (s : ServerCore X) (nowMs : UInt64) (src : SocketAddr) :
    (s.takeRejectTurn nowMs src).1.members = s.members := by
  simp only [takeRejectTurn]
  split_ifs <;> rfl

theorem revoked_init_refused {s : ServerCore X} {data noise : Bytes} {jti : TokenId}
    (hinit : IsInitOf data noise) (hbrings : BringsToken X s.cfg noise jti)
    (hjti : jti ∈ s.revoked) (nowMs nowUnix : UInt64) (src : SocketAddr) (ephemeral : Bytes) :
    (s.handleDatagram nowMs nowUnix src data ephemeral).1.members = s.members ∧
      ∀ d ∈ (s.handleDatagram nowMs nowUnix src data ephemeral).2,
        d.2.head? ≠ some Wire.typeHandshakeResp := by
  have hrefused := admitInit_revoked (s := (s.cookieRequired nowMs).1) hbrings hjti nowMs nowUnix src
    ephemeral
  rcases hinit with ⟨version, hparse⟩ | ⟨cookie, version, hparse⟩
  · simp only [handleDatagram, hparse]
    split_ifs with hversion hcookie
    · -- another version: a version reject at most
      simp only [versionReject]
      split_ifs
      · exact ⟨rfl, fun d hd => absurd hd List.not_mem_nil⟩
      · refine ⟨takeRejectTurn_members s nowMs src, fun d hd => ?_⟩
        obtain ⟨key, -, rfl⟩ := Option.map_eq_some_iff.mp (Option.mem_toList.mp hd)
        exact fun h => absurd (Option.some.inj h) (by decide)
      · exact ⟨takeRejectTurn_members s nowMs src, fun d hd => absurd hd List.not_mem_nil⟩
    · -- under load: a cookie challenge at most
      simp only [cookieChallenge]
      split_ifs
      · exact ⟨rfl, fun d hd => absurd hd List.not_mem_nil⟩
      · refine ⟨rfl, fun d hd => ?_⟩
        rw [List.mem_singleton.mp hd]
        exact fun h => absurd (Option.some.inj h) (by decide)
      · exact ⟨rfl, fun d hd => absurd hd List.not_mem_nil⟩
    · rw [hrefused.2]
      exact ⟨hrefused.1, fun d hd => absurd hd List.not_mem_nil⟩
  · simp only [handleDatagram, hparse]
    split_ifs
    · rw [hrefused.2]
      exact ⟨hrefused.1, fun d hd => absurd hd List.not_mem_nil⟩
    · exact ⟨rfl, fun d hd => absurd hd List.not_mem_nil⟩

theorem start_kept (X : Externals) (cfg : ServerConfig) (logTail : Option LogTail)
    (jtis : List TokenId) (owner : TokenId → MemberId) :
    Room.Kept owner (start X cfg logTail jtis).room := by
  have hseats : ∀ id seat, (start X cfg logTail jtis).room.seats id ≠ some seat := by
    intro id seat
    show (∅ : Std.ExtTreeMap MemberId (Member X))[id]?.map Member.seat ≠ some seat
    rw [Std.ExtTreeMap.getElem?_empty]
    exact (Option.some_ne_none seat).symm
  exact ⟨fun id seat h => absurd h (hseats id seat), fun id seat h => absurd h (hseats id seat)⟩

/-- Where each token id was issued to one member, a revocation holds for the rest of
the run: restored or handled, the id stays revoked, nobody is connected with it, and no
init that brings it is answered with an admission. -/
theorem revocation_is_permanent {cfg : ServerConfig} {owner : TokenId → MemberId}
    (howner : ∀ id jti, Issued X cfg id jti → owner jti = id) (logTail : Option LogTail)
    (jtis : List TokenId) (calls : List Call) (jti : TokenId) :
    (jti ∈ jtis → jti ∈ (run step (start X cfg logTail jtis) calls).revoked) ∧
    (∀ c t nowMs msgs, (run step (start X cfg logTail jtis) calls).batch c =
        some (t, nowMs, hostMemberId, msgs) → .revoke jti ∈ msgs →
      jti ∈ ((run step (start X cfg logTail jtis) calls).step c).revoked) ∧
    (jti ∈ (run step (start X cfg logTail jtis) calls).revoked → ∀ later : List Call,
      (∀ (id : MemberId) (m : Member X),
        (run step (start X cfg logTail jtis) (calls ++ later)).members[id]? = some m →
        m.jti = jti → m.connected = false) ∧
      ∀ nowMs nowUnix src data noise ephemeral, IsInitOf data noise → BringsToken X cfg noise jti →
        ((run step (start X cfg logTail jtis) (calls ++ later)).handleDatagram nowMs nowUnix src data
          ephemeral).1.members =
            (run step (start X cfg logTail jtis) (calls ++ later)).members ∧
        ∀ d ∈ ((run step (start X cfg logTail jtis) (calls ++ later)).handleDatagram nowMs nowUnix
          src data ephemeral).2, d.2.head? ≠ some Wire.typeHandshakeResp) := by
  refine ⟨fun hrestored => ?_, fun c t nowMs msgs hbatch hmem => ?_, fun hjti later => ?_⟩
  · refine run_revoked _ calls ?_
    exact Finset.mem_union_right _ (List.mem_toFinset.mpr hrestored)
  · -- what follows the batch in the call takes nothing back
    rw [step_of_batch hbatch]
    exact (Calm.flushMemberLink _ nowMs hostMemberId).toQuiet.refines.revoked
      (handleBatch_revokes nowMs hmem t)
  · have hlater : jti ∈ (run step (start X cfg logTail jtis) (calls ++ later)).revoked := by
      rw [run_append]
      exact run_revoked _ later hjti
    obtain ⟨hcfg, hsteps⟩ := run_room (start X cfg logTail jtis) (calls ++ later)
    have hkept : Room.Kept owner (run step (start X cfg logTail jtis) (calls ++ later)).room :=
      reflTransGen_invariant (r := RoomStep X cfg) (P := Room.Kept owner)
        (fun _ _ h hs => h.step howner hs) (start_kept X cfg logTail jtis owner) hsteps
    refine ⟨fun id m hm hmj => ?_, fun nowMs nowUnix src data noise ephemeral hinit hbrings => ?_⟩
    · -- a seat in use would be under a key that is barred
      refine Bool.eq_false_iff.mpr fun hconn => ?_
      refine hkept.locked id m.seat (congrArg (Option.map Member.seat) hm) hconn ?_
      show m.jti ∈ _
      rw [hmj]
      exact Finset.mem_coe.mpr hlater
    · refine revoked_init_refused hinit ?_ hlater nowMs nowUnix src ephemeral
      rwa [hcfg]

def revoking : List Call :=
  [.handleDatagram 0 0 (Plaintext.addrOf 0) (Plaintext.initOf 0 .musician) [],
   .handleDatagram 1 0 (Plaintext.addrOf 1) (Plaintext.initOf 1 .musician) [],
   .handleDatagram 2 0 (Plaintext.addrOf 0)
    (Plaintext.packetOf 0 0 { ack := 0, ackBits := 0, frame := some (0, .revoke 1) }) []]

theorem revocation_is_permanent_revoking :
    (run step (start plaintext Plaintext.config none []) revoking).revoked = {1} ∧
    ∀ (later : List Call) (id : MemberId) (m : Member plaintext),
      (run step (start plaintext Plaintext.config none []) (revoking ++ later)).members[id]? =
        some m → m.jti = 1 → m.connected = false := by
  have howner : ∀ id jti, Issued plaintext Plaintext.config id jti →
      UInt16.ofNat jti.toNat = id := by
    rintro id jti ⟨token, signature, nowUnix, hverified, rfl, rfl⟩
    exact Plaintext.verifyToken_owner hverified
  have hrevoked : (run step (start plaintext Plaintext.config none []) revoking).revoked = {1} := by
    decide +kernel
  refine ⟨hrevoked, fun later => ?_⟩
  have h := (@revocation_is_permanent plaintext Plaintext.config _ howner none [] revoking 1).2.2
  -- the state is hidden from here on, so that nobody runs it
  generalize run step (start plaintext Plaintext.config none []) revoking = s at h hrevoked
  have hmem : 1 ∈ s.revoked := by
    rw [hrevoked]
    exact Finset.mem_singleton_self 1
  exact (h hmem later).1

end ServerCore
end JamStream.Session
