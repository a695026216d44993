import JamStream.Session.Replies

/-! An init that comes again while the answer to it stands. -/

namespace JamStream.Session
open Protocol Engine Foundations
open Std (ExtTreeMap)
variable {X : Externals}

def Carries (data : Bytes) (cookie : Option Bytes) (noise : Bytes) : Prop :=
  Wire.parse data = match cookie with
    | none => .ok (.handshakeInit protocolVersion noise)
    | some cookie => .ok (.cookiedInit cookie protocolVersion noise)

namespace ServerCore
variable {s s' s'' : ServerCore X} {nowMs nowUnix : UInt64} {src : SocketAddr}
  {data noise ephemeral : Bytes} {cookie : Option Bytes} {id : MemberId} {token : Token}

/-- Of all there is, only the budgets in front of a handshake and their counters have moved. -/
def Charged (s s' : ServerCore X) : Prop :=
  s' = { s with
    initSlotBudget := s'.initSlotBudget, initBudget := s'.initBudget
    initReads := s'.initReads, cookieTrigger := s'.cookieTrigger
    challengeBudget := s'.challengeBudget, challenges := s'.challenges }

theorem Charged.trans (h : Charged s s') (h' : Charged s' s'') : Charged s s'' := by
  unfold Charged at h h' ⊢
  rw [h', h]

theorem Charged.members (h : Charged s s') : s'.members = s.members := by
  unfold Charged at h
  rw [h]

/-- Only the budgets of admission have moved, and the point to which one member's violations are
counted down. -/
structure OnlyBudgets (nowMs : UInt64) (id : MemberId) (s s' : ServerCore X) : Prop where
  rest : s' = { s with
    members := s'.members, initSlotBudget := s'.initSlotBudget, initBudget := s'.initBudget
    initReads := s'.initReads, cookieTrigger := s'.cookieTrigger
    challengeBudget := s'.challengeBudget, challenges := s'.challenges }
  sender : s'.members[id]? = s.members[id]? ∨ s'.members[id]? = s.members[id]?.map fun m =>
    { m with violationBudget := (m.violationBudget.available nowMs).1 }
  others : ∀ id' : MemberId, id' ≠ id → s'.members[id']? = s.members[id']?

theorem Charged.onlyBudgets (h : Charged s s') : OnlyBudgets nowMs id s s' where
  rest := by
    unfold Charged at h
    rw [h]
  sender := .inl (by rw [h.members])
  others id' _ := by rw [h.members]

theorem OnlyBudgets.after (h : OnlyBudgets nowMs id s' s'') (hcharged : Charged s s') :
    OnlyBudgets nowMs id s s'' where
  rest := by
    unfold Charged at hcharged
    rw [h.rest, hcharged]
  sender := by
    rw [← hcharged.members]
    exact h.sender
  others id' hid := by
    rw [← hcharged.members]
    exact h.others id' hid

theorem charged_cookieRequired (s : ServerCore X) (nowMs : UInt64) :
    Charged s (s.cookieRequired nowMs).1 := rfl

theorem charged_cookieChallenge (s : ServerCore X) (nowMs : UInt64) (src : SocketAddr)
    (initPacket : Bytes) : Charged s (s.cookieChallenge nowMs src initPacket).1 := by
  simp only [cookieChallenge]
  split_ifs
  · rfl
  · rfl
  · rfl

theorem charged_initBudgetTake (s : ServerCore X) (nowMs : UInt64) (src : SocketAddr) :
    Charged s (s.initBudgetTake nowMs src).1 := by
  simp only [initBudgetTake]
  split_ifs
  · rfl
  · rfl
  · rfl
  · rfl

theorem onlyBudgets_violationAvailable (s : ServerCore X) (nowMs : UInt64) (id : MemberId) :
    OnlyBudgets nowMs id s (s.violationAvailable nowMs id).1 := by
  simp only [violationAvailable]
  split
  · exact Charged.onlyBudgets rfl
  next m hm =>
    refine ⟨rfl, .inr ?_, fun id' hid => ?_⟩
    · rw [members_update, if_pos rfl, hm]
      rfl
    · rw [members_update, if_neg hid.symm]

/-- The answer that stands for a member: they are connected, and it was stored at most
`respCacheMs` ago. -/
structure Standing (s : ServerCore X) (nowMs : UInt64) (id : MemberId) (cache : RespCache) :
    Prop where
  stored : ∃ m, s.members[id]? = some m ∧ m.connected = true ∧ m.respCache = some cache
  fresh : saturatingSub nowMs cache.atMs ≤ respCacheMs

variable {cache : RespCache}

theorem OnlyBudgets.standing (h : OnlyBudgets nowMs id s s') (hs : s.Standing nowMs id cache) :
    s'.Standing nowMs id cache := by
  obtain ⟨m, hm, hconnected, hcache⟩ := hs.stored
  rcases h.sender with hsame | hcounted
  · exact ⟨⟨m, hsame.trans hm, hconnected, hcache⟩, hs.fresh⟩
  · exact ⟨⟨_, hcounted.trans (congrArg _ hm), hconnected, hcache⟩, hs.fresh⟩

theorem Charged.standing (h : Charged s s') (hs : s.Standing nowMs id cache) :
    s'.Standing nowMs id cache := h.onlyBudgets.standing hs

theorem Standing.liveAnswer (h : s.Standing nowMs id cache) :
    s.liveAnswer nowMs src id cache.initHash = some [(src, cache.resp)] := by
  obtain ⟨m, hm, hconnected, hcache⟩ := h.stored
  have hkept : m.respCache.filter (fun c =>
      saturatingSub nowMs c.atMs ≤ respCacheMs && c.initHash = cache.initHash) = some cache := by
    rw [hcache]
    refine Option.filter_some_pos ?_
    rw [Bool.and_eq_true]
    exact ⟨decide_eq_true h.fresh, decide_eq_true rfl⟩
  rw [ServerCore.liveAnswer, hm]
  simp only [hconnected, if_true, hkept]

def grants (s : ServerCore X) (nowMs nowUnix : UInt64) (src : SocketAddr)
    (hp : HandshakePayload) : Bool :=
  (s.initBudgetTake nowMs src).2 &&
  (verifyToken X.toCrypto X.toFormats s.cfg.issuerPk s.cfg.sessionId s.cfg.serverPublic hp.token
    hp.signature nowUnix).isOk &&
  decide (hp.token.jti ∉ s.revoked) && (s.violationAvailable nowMs hp.token.memberId).2

theorem violationAvailable_of_members (hmembers : s'.members = s.members) :
    (s'.violationAvailable nowMs id).2 = (s.violationAvailable nowMs id).2 := by
  simp only [violationAvailable]
  rw [hmembers]
  cases s.members[id]? with
  | none => rfl
  | some m => rfl

theorem members_initBudgetTake (s : ServerCore X) (nowMs : UInt64) (src : SocketAddr) :
    (s.initBudgetTake nowMs src).1.members = s.members := by
  simp only [initBudgetTake]
  split_ifs <;> rfl

theorem Standing.admitToken (h : s.Standing nowMs token.memberId cache)
    (hhash : X.blake2s noise = cache.initHash) (responder : Responder X.toCrypto) :
    OnlyBudgets nowMs token.memberId s
      (s.admitToken nowMs src noise ephemeral token responder).1 ∧
    (s.admitToken nowMs src noise ephemeral token responder).2 =
      if token.jti ∉ s.revoked ∧ (s.violationAvailable nowMs token.memberId).2 = true then
        [(src, cache.resp)] else [] := by
  have hcounted := onlyBudgets_violationAvailable s nowMs token.memberId
  have hanswer : (s.violationAvailable nowMs token.memberId).1.liveAnswer nowMs src token.memberId
      cache.initHash = some [(src, cache.resp)] := (hcounted.standing h).liveAnswer
  simp only [ServerCore.admitToken]
  by_cases hrevoked : token.jti ∈ s.revoked
  · rw [if_pos hrevoked, if_neg fun hnot => hnot.1 hrevoked]
    exact ⟨Charged.onlyBudgets rfl, rfl⟩
  rw [if_neg hrevoked]
  cases havailable : (s.violationAvailable nowMs token.memberId).2 with
  | false =>
    rw [Bool.not_false, if_pos rfl, if_neg fun hnot => Bool.false_ne_true hnot.2]
    exact ⟨hcounted, rfl⟩
  | true =>
    have hgranted : token.jti ∉ s.revoked ∧ true = true := ⟨hrevoked, rfl⟩
    rw [Bool.not_true, if_neg Bool.false_ne_true, hhash, hanswer, if_pos hgranted]
    exact ⟨hcounted, rfl⟩

def budgeted (s : ServerCore X) (nowMs : UInt64) (src : SocketAddr) : ServerCore X :=
  { (s.initBudgetTake nowMs src).1 with
    initReads := (s.initBudgetTake nowMs src).1.initReads + 1 }

theorem charged_budgeted (s : ServerCore X) (nowMs : UInt64) (src : SocketAddr) :
    Charged s (s.budgeted nowMs src) := (charged_initBudgetTake s nowMs src).trans rfl

def readAndAdmit (s : ServerCore X) (nowMs nowUnix : UInt64) (src : SocketAddr)
    (noise ephemeral : Bytes) : ServerCore X × Outgoing :=
  match Responder.readInit X.toFormats s.cfg.serverPrivate s.cfg.sessionId protocolVersion noise with
  | .error _ => (s, [])
  | .ok (hp, responder) =>
    match verifyToken X.toCrypto X.toFormats s.cfg.issuerPk s.cfg.sessionId s.cfg.serverPublic
        hp.token hp.signature nowUnix with
    | .error _ => (s, [])
    | .ok () => s.admitToken nowMs src noise ephemeral hp.token responder

theorem admitInit_eq (s : ServerCore X) (nowMs nowUnix : UInt64) (src : SocketAddr)
    (noise ephemeral : Bytes) : s.admitInit nowMs nowUnix src noise ephemeral =
      if !(s.initBudgetTake nowMs src).2 then ((s.initBudgetTake nowMs src).1, [])
      else (s.budgeted nowMs src).readAndAdmit nowMs nowUnix src noise ephemeral := rfl

theorem Standing.admitInit {hp : HandshakePayload} {responder : Responder X.toCrypto}
    (h : s.Standing nowMs hp.token.memberId cache) (hhash : X.blake2s noise = cache.initHash)
    (hread : Responder.readInit X.toFormats s.cfg.serverPrivate s.cfg.sessionId protocolVersion
      noise = .ok (hp, responder)) :
    OnlyBudgets nowMs hp.token.memberId s (s.admitInit nowMs nowUnix src noise ephemeral).1 ∧
    (s.admitInit nowMs nowUnix src noise ephemeral).2 =
      if s.grants nowMs nowUnix src hp then [(src, cache.resp)] else [] := by
  have hbudget := charged_budgeted s nowMs src
  have hrest : s.budgeted nowMs src = _ := hbudget
  have hcfg : (s.budgeted nowMs src).cfg = s.cfg := by
    rw [hrest]
  have hrevoked : (s.budgeted nowMs src).revoked = s.revoked := by
    rw [hrest]
  rw [admitInit_eq, readAndAdmit, hcfg, hread]
  cases hgranted : (s.initBudgetTake nowMs src).2 with
  | false =>
    have hrefused : s.grants nowMs nowUnix src hp = false := by
      rw [grants, hgranted]
      rfl
    rw [hrefused]
    exact ⟨(charged_initBudgetTake s nowMs src).onlyBudgets, rfl⟩
  | true =>
    cases hverified : verifyToken X.toCrypto X.toFormats s.cfg.issuerPk s.cfg.sessionId
      s.cfg.serverPublic hp.token hp.signature nowUnix with
    | error e =>
      have hrefused : s.grants nowMs nowUnix src hp = false := by
        rw [grants, hgranted, hverified]
        rfl
      dsimp only
      rw [hverified, hrefused]
      exact ⟨hbudget.onlyBudgets, rfl⟩
    | ok _ =>
      dsimp only
      rw [hverified]
      obtain ⟨honly, hout⟩ := (hbudget.standing h).admitToken hhash responder
      refine ⟨honly.after hbudget, hout.trans ?_⟩
      rw [violationAvailable_of_members hbudget.members, hrevoked]
      refine if_congr ?_ rfl rfl
      rw [grants, hgranted, hverified, Bool.and_eq_true, Bool.and_eq_true, decide_eq_true_eq]
      exact and_congr_left fun _ => (and_iff_right rfl).symm

/-- What an init of this version draws while an answer to it stands, in either framing: the answer
if it is let through, and otherwise nothing or the challenge to a plain one. -/
def redrawn (s : ServerCore X) (nowMs nowUnix : UInt64) (src : SocketAddr) (data : Bytes)
    (hp : HandshakePayload) (resp : Bytes) : Option Bytes → Outgoing
  | none =>
    if (s.cookieRequired nowMs).2 then ((s.cookieRequired nowMs).1.cookieChallenge nowMs src data).2
    else if (s.cookieRequired nowMs).1.grants nowMs nowUnix src hp then [(src, resp)]
    else []
  | some cookie =>
    if s.cookieValid nowMs src cookie && (s.cookieRequired nowMs).1.grants nowMs nowUnix src hp then
      [(src, resp)]
    else []

theorem Standing.retried {hp : HandshakePayload} {responder : Responder X.toCrypto}
    (h : s.Standing nowMs hp.token.memberId cache) (hhash : X.blake2s noise = cache.initHash)
    (hread : Responder.readInit X.toFormats s.cfg.serverPrivate s.cfg.sessionId protocolVersion
      noise = .ok (hp, responder)) (hdata : Carries data cookie noise) :
    OnlyBudgets nowMs hp.token.memberId s
      (s.handleDatagram nowMs nowUnix src data ephemeral).1 ∧
    (s.handleDatagram nowMs nowUnix src data ephemeral).2 =
      s.redrawn nowMs nowUnix src data hp cache.resp cookie := by
  have hcookie := charged_cookieRequired s nowMs
  have hadmitted : OnlyBudgets nowMs hp.token.memberId (s.cookieRequired nowMs).1
      ((s.cookieRequired nowMs).1.admitInit nowMs nowUnix src noise ephemeral).1 ∧
      ((s.cookieRequired nowMs).1.admitInit nowMs nowUnix src noise ephemeral).2 =
        if (s.cookieRequired nowMs).1.grants nowMs nowUnix src hp then [(src, cache.resp)] else [] :=
    (hcookie.standing h).admitInit hhash hread
  obtain ⟨honly, hout⟩ := hadmitted
  cases cookie with
  | none =>
    have hparse : Wire.parse data = .ok (.handshakeInit protocolVersion noise) := hdata
    simp only [handleDatagram, hparse, ne_eq, not_true_eq_false, if_false, redrawn]
    split_ifs with hrequired hgranted
    · exact ⟨(hcookie.trans (charged_cookieChallenge _ nowMs src data)).onlyBudgets, rfl⟩
    · rw [hout, if_pos hgranted]
      exact ⟨honly.after hcookie, rfl⟩
    · rw [hout, if_neg hgranted]
      exact ⟨honly.after hcookie, rfl⟩
  | some cookie =>
    have hparse : Wire.parse data = .ok (.cookiedInit cookie protocolVersion noise) := hdata
    have hsame : (s.cookieRequired nowMs).1.cookieValid nowMs src cookie =
        s.cookieValid nowMs src cookie := rfl
    simp only [handleDatagram, hparse, true_and, redrawn, hsame]
    cases s.cookieValid nowMs src cookie with
    | false => exact ⟨hcookie.onlyBudgets, rfl⟩
    | true =>
      rw [if_pos rfl, hout, Bool.true_and]
      exact ⟨honly.after hcookie, rfl⟩

/-! Where a stored answer comes from. -/

def Made (s : ServerCore X) (c : Call) (cache : RespCache) : Prop :=
  ∃ nowUnix src data ephemeral cookie noise,
    c = .handleDatagram cache.atMs nowUnix src data ephemeral ∧ Carries data cookie noise ∧
    X.blake2s noise = cache.initHash ∧ (s.call c).2 = [(src, cache.resp)]

/-- Answers are what they were, but for one that a fresh seat stored with the reply. -/
def Answering (s s' : ServerCore X) (nowMs : UInt64) (src : SocketAddr) (noise : Bytes)
    (out : Outgoing) : Prop :=
  ∀ id cache, s'.answer id = some cache → s.answer id = some cache ∨
    cache.atMs = nowMs ∧ X.blake2s noise = cache.initHash ∧ out = [(src, cache.resp)]

theorem answering_of_members {out : Outgoing} (h : s'.members = s.members) :
    Answering s s' nowMs src noise out := by
  intro id cache hcache
  unfold answer at hcache ⊢
  rw [h] at hcache
  exact .inl hcache

theorem Aside.answering {out : Outgoing} (h : Aside s s') : Answering s s' nowMs src noise out :=
  fun id cache hcache => .inl (h.answers id cache hcache)

theorem Answering.after {out : Outgoing} (h : Answering s' s'' nowMs src noise out)
    (hbefore : Aside s s') : Answering s s'' nowMs src noise out :=
  fun id cache hcache => (h id cache hcache).imp_left (hbefore.answers id cache)

theorem answering_takeSeat (s : ServerCore X) (nowMs : UInt64) (src : SocketAddr) (token : Token)
    (responder : Responder X.toCrypto) (noise ephemeral : Bytes) :
    Answering s (s.takeSeat nowMs src token responder (X.blake2s noise) ephemeral).1 nowMs src noise
      (s.takeSeat nowMs src token responder (X.blake2s noise) ephemeral).2 := by
  unfold takeSeat
  split
  · exact answering_of_members rfl
  next t ht =>
    have hencoder := Aside.ensureBcastEncoder ht
    split
    next media session resp hmedia hrespond =>
      intro id cache hcache
      have hseated := (Aside.welcomed t nowMs src token session
        { initHash := X.blake2s noise, resp, atMs := nowMs } media).answers id cache hcache
      rw [answer_seat] at hseated
      split_ifs at hseated
      · obtain rfl := Option.some.inj hseated
        exact .inr ⟨rfl, rfl, rfl⟩
      · exact .inl (hencoder.answers id cache hseated)
    · exact hencoder.answering

theorem answering_takeRejectTurn {out : Outgoing} (s : ServerCore X) (nowMs : UInt64)
    (src : SocketAddr) : Answering s (s.takeRejectTurn nowMs src).1 nowMs src noise out := by
  refine answering_of_members ?_
  simp only [takeRejectTurn]
  split_ifs <;> rfl

theorem answering_admitToken (s : ServerCore X) (nowMs : UInt64) (src : SocketAddr)
    (noise ephemeral : Bytes) (token : Token) (responder : Responder X.toCrypto) :
    Answering s (s.admitToken nowMs src noise ephemeral token responder).1 nowMs src noise
      (s.admitToken nowMs src noise ephemeral token responder).2 := by
  have havailable := Aside.violationAvailable s nowMs token.memberId
  simp only [admitToken]
  split
  · exact answering_of_members rfl
  · split
    · exact havailable.answering
    · split
      · exact havailable.answering
      · split
        · refine Answering.after ?_ havailable
          simp only [capacityReject]
          split_ifs
          · exact answering_takeRejectTurn _ nowMs src
          · exact answering_takeRejectTurn _ nowMs src
        · exact (answering_takeSeat _ nowMs src token responder noise ephemeral).after havailable

theorem answering_admitInit (s : ServerCore X) (nowMs nowUnix : UInt64) (src : SocketAddr)
    (noise ephemeral : Bytes) :
    Answering s (s.admitInit nowMs nowUnix src noise ephemeral).1 nowMs src noise
      (s.admitInit nowMs nowUnix src noise ephemeral).2 := by
  have hmembers := members_initBudgetTake s nowMs src
  have hbudgeted : (s.budgeted nowMs src).members = s.members := hmembers
  rw [admitInit_eq]
  split
  · exact answering_of_members hmembers
  · rw [readAndAdmit]
    split
    · exact answering_of_members hbudgeted
    · split
      · exact answering_of_members hbudgeted
      next hp responder _ _ _ =>
        have hadmitted := answering_admitToken (s.budgeted nowMs src) nowMs src noise ephemeral
          hp.token responder
        intro id cache hcache
        have hsame : (s.budgeted nowMs src).answer id = s.answer id :=
          congrArg (fun members => members[id]?.bind Member.respCache) hbudgeted
        exact hsame ▸ hadmitted id cache hcache

theorem answer_of_members (h : s'.members = s.members) (id : MemberId) :
    s'.answer id = s.answer id := congrArg (fun members => members[id]?.bind Member.respCache) h

theorem answer_takeRejectTurn (s : ServerCore X) (nowMs : UInt64) (src : SocketAddr)
    (id : MemberId) : (s.takeRejectTurn nowMs src).1.answer id = s.answer id := by
  refine answer_of_members ?_ id
  simp only [takeRejectTurn]
  split_ifs <;> rfl

theorem handleDatagram_admits (s : ServerCore X) (nowMs nowUnix : UInt64) (src : SocketAddr)
    (data ephemeral : Bytes) :
    (∃ cookie noise, Carries data cookie noise ∧
      s.handleDatagram nowMs nowUnix src data ephemeral =
        (s.cookieRequired nowMs).1.admitInit nowMs nowUnix src noise ephemeral) ∨
    ∀ id cache, (s.handleDatagram nowMs nowUnix src data ephemeral).1.answer id = some cache →
      s.answer id = some cache := by
  have hcookie : ∀ id, (s.cookieRequired nowMs).1.answer id = s.answer id := fun _ => rfl
  unfold handleDatagram
  split
  next version noise hparse =>
    split
    next hversion =>
      right
      intro id cache hcache
      rw [← answer_takeRejectTurn s nowMs src id]
      simp only [versionReject] at hcache
      split_ifs at hcache
      · rw [answer_takeRejectTurn]
        exact hcache
      · exact hcache
      · exact hcache
    next hversion =>
      obtain rfl := not_not.mp hversion
      dsimp only
      split
      · right
        intro id cache hcache
        simp only [cookieChallenge] at hcache
        split_ifs at hcache
        · exact hcache
        · exact hcache
        · exact hcache
      · exact .inl ⟨none, noise, hparse, rfl⟩
  next cookie version noise hparse =>
    dsimp only
    split
    next hvalid =>
      obtain ⟨rfl, -⟩ := hvalid
      exact .inl ⟨some cookie, noise, hparse, rfl⟩
    · exact .inr fun id cache hcache => (hcookie id) ▸ hcache
  next member counter ciphertext hparse =>
    exact .inr (Aside.handleTransport s nowMs src member counter ciphertext).answers
  · exact .inr fun _ _ hcache => hcache

theorem answers_step (s : ServerCore X) (c : Call)
    (h : (s.step c).answer id = some cache) : s.answer id = some cache ∨ s.Made c cache := by
  cases c with
  | handleDatagram nowMs nowUnix src data ephemeral =>
    rcases handleDatagram_admits s nowMs nowUnix src data ephemeral with
      ⟨cookie, noise, hdata, hadmit⟩ | hkept
    · have hstored : ((s.cookieRequired nowMs).1.admitInit nowMs nowUnix src noise
          ephemeral).1.answer id = some cache := hadmit ▸ h
      rcases answering_admitInit _ nowMs nowUnix src noise ephemeral id cache hstored with
        hold | ⟨rfl, hhash, hout⟩
      · exact .inl hold
      · refine .inr ⟨nowUnix, src, data, ephemeral, cookie, noise, rfl, hdata, hhash, ?_⟩
        exact (congrArg Prod.snd hadmit).trans hout
    · exact .inl (hkept id cache h)
  | _ => exact .inl ((Aside.call s (by rintro _ _ _ _ _ ⟨⟩)).answers id cache h)

theorem answer_made (s : ServerCore X) (hs : ∀ id, s.answer id = none) (calls : List Call)
    (h : (Runs.run step s calls).answer id = some cache) :
    ∃ before c after, calls = before ++ c :: after ∧ (Runs.run step s before).Made c cache := by
  induction calls using List.reverseRecOn with
  | nil => cases (hs id).symm.trans h
  | append_singleton calls c ih =>
    rw [Runs.run_append] at h
    rcases answers_step _ c h with hold | hmade
    · obtain ⟨before, c', after, rfl, hmade⟩ := ih hold
      exact ⟨before, c', after ++ [c], by rw [List.append_assoc]; rfl, hmade⟩
    · exact ⟨calls, c, [], rfl, hmade⟩

theorem answer_start (cfg : ServerConfig) (logTail : Option LogTail) (jtis : List TokenId)
    (id : MemberId) : (start X cfg logTail jtis).answer id = none := by
  have hnone : (start X cfg logTail jtis).members[id]? = none := ExtTreeMap.getElem?_empty
  unfold answer
  rw [hnone]
  rfl

/-- While the answer of a member stands, it is the one that the init stored for it drew. That init
draws it again in either framing, once the budgets and the token let it through, and nothing else
then; it moves the budgets only, so that the answer still stands. No call puts another answer in
its place but one that has just sent it. -/
theorem retry_draws_the_same (cfg : ServerConfig) (logTail : Option LogTail) (jtis : List TokenId)
    (calls : List Call) (nowMs : UInt64) (id : MemberId) (cache : RespCache)
    (h : (Runs.run step (start X cfg logTail jtis) calls).Standing nowMs id cache) :
    let s := Runs.run step (start X cfg logTail jtis) calls
    (∃ before c after, calls = before ++ c :: after ∧
      (Runs.run step (start X cfg logTail jtis) before).Made c cache) ∧
    (∀ (hp : HandshakePayload) (responder : Responder X.toCrypto) (noise data : Bytes)
      (cookie : Option Bytes) (nowUnix : UInt64) (src : SocketAddr) (ephemeral : Bytes),
      hp.token.memberId = id → X.blake2s noise = cache.initHash →
      Responder.readInit X.toFormats s.cfg.serverPrivate s.cfg.sessionId protocolVersion noise =
        .ok (hp, responder) → Carries data cookie noise →
      (s.handleDatagram nowMs nowUnix src data ephemeral).2 =
        s.redrawn nowMs nowUnix src data hp cache.resp cookie ∧
      OnlyBudgets nowMs id s (s.handleDatagram nowMs nowUnix src data ephemeral).1 ∧
      (s.handleDatagram nowMs nowUnix src data ephemeral).1.Standing nowMs id cache) ∧
    ∀ c cache', (s.step c).answer id = some cache' → cache' = cache ∨ s.Made c cache' := by
  intro s
  refine ⟨?_, fun hp responder noise data cookie nowUnix src ephemeral hid hhash hread hdata => ?_,
    fun c cache' hcache => ?_⟩
  · -- the run stored the answer in the call that drew it
    obtain ⟨m, hm, -, hstored⟩ := h.stored
    have hanswer : s.answer id = some cache := by
      rw [answer, hm]
      exact hstored
    exact answer_made _ (answer_start cfg logTail jtis) calls hanswer
  · subst hid
    have hretried : OnlyBudgets nowMs hp.token.memberId s
        (s.handleDatagram nowMs nowUnix src data ephemeral).1 ∧
        (s.handleDatagram nowMs nowUnix src data ephemeral).2 =
          s.redrawn nowMs nowUnix src data hp cache.resp cookie := h.retried hhash hread hdata
    exact ⟨hretried.2, hretried.1, hretried.1.standing h⟩
  · rcases answers_step s c hcache with hold | hmade
    · obtain ⟨m, hm, -, hstored⟩ := h.stored
      rw [answer, hm] at hold
      exact .inl (Option.some.inj (hold.symm.trans hstored))
    · exact .inr hmade

def firstInit : Call :=
  .handleDatagram 0 0 (Plaintext.addrOf 1) (Plaintext.initOf 1 .musician) []

def inited (n : ℕ) : ServerCore plaintext :=
  Runs.run step (start plaintext Plaintext.config none []) (List.replicate n firstInit)

theorem standing_of_answer (hconnected : s.isConnected id = true)
    (hanswer : s.answer id = some cache) (hfresh : saturatingSub nowMs cache.atMs ≤ respCacheMs) :
    s.Standing nowMs id cache := by
  obtain ⟨m, hm, hlive⟩ := isConnected_iff.mp hconnected
  rw [answer, hm] at hanswer
  exact ⟨⟨m, hm, hlive, hanswer⟩, hfresh⟩

def firstNoise : Bytes := Plaintext.token.ser (Plaintext.tokenOf 1 .musician)

theorem firstNoise_read : ∃ responder : Responder plaintext.toCrypto, ∀ priv sessionId,
    Responder.readInit plaintext.toFormats priv sessionId protocolVersion firstNoise =
      .ok (⟨Plaintext.tokenOf 1 .musician, []⟩, responder) := by
  refine ⟨⟨(), List.replicate 32 0⟩, fun priv sessionId => ?_⟩
  have hpayload : plaintext.handshakePayload.de firstNoise =
      some (⟨Plaintext.tokenOf 1 .musician, []⟩, []) := by
    change (Plaintext.token.de firstNoise).map _ = _
    rw [firstNoise, Plaintext.token_lawful.de_ser]
    rfl
  have hmessage : ∀ prologue, plaintext.readMessage priv prologue firstNoise =
      some ((), firstNoise) := fun _ => rfl
  rw [Responder.readInit, if_neg (not_not.mpr rfl), hmessage]
  simp only [hpayload]
  rfl

theorem inited_stands (n : ℕ) (hconnected : (inited n).isConnected 1 = true)
    (hanswer : ((inited n).answer 1).any (fun cache => cache.atMs = 0 ∧
      plaintext.blake2s firstNoise = cache.initHash) = true) :
    ∃ cache, (inited n).Standing 0 1 cache ∧ plaintext.blake2s firstNoise = cache.initHash := by
  obtain ⟨cache, hcache, hmatch⟩ := (Option.any_eq_true _ _).mp hanswer
  obtain ⟨hzero, hhash⟩ := of_decide_eq_true hmatch
  refine ⟨cache, standing_of_answer hconnected hcache ?_, hhash⟩
  rw [hzero]
  decide

theorem retry_draws_the_same_joined :
    ∃ cache, (inited 1).Standing 0 1 cache ∧
      ((inited 1).handleDatagram 0 0 (Plaintext.addrOf 1) (Plaintext.initOf 1 .musician) []).2 =
        [(Plaintext.addrOf 1, cache.resp)] := by
  obtain ⟨cache, hstands, hhash⟩ := inited_stands 1 (by decide +kernel) (by decide +kernel)
  obtain ⟨responder, hread⟩ := firstNoise_read
  have hdata : Carries (Plaintext.initOf 1 .musician) none firstNoise := by
    change Wire.parse _ = .ok (.handshakeInit protocolVersion firstNoise)
    decide +kernel
  have h := retry_draws_the_same Plaintext.config none [] (List.replicate 1 firstInit) 0 1 cache
    hstands
  have hdrawn := (h.2.1 ⟨Plaintext.tokenOf 1 .musician, []⟩ responder firstNoise
    (Plaintext.initOf 1 .musician) none 0 (Plaintext.addrOf 1) [] rfl hhash (hread _ _) hdata).1
  have hpasses : ((inited 1).cookieRequired 0).2 = false ∧
      ((inited 1).cookieRequired 0).1.grants 0 0 (Plaintext.addrOf 1)
        ⟨Plaintext.tokenOf 1 .musician, []⟩ = true := by decide +kernel
  refine ⟨cache, hstands, hdrawn.trans ?_⟩
  change redrawn (inited 1) 0 0 _ _ _ _ none = _
  rw [redrawn, hpasses.1, hpasses.2]
  rfl

/-- Within a millisecond the twenty-fifth init of one network is past its share: the answer to it
stands, and it draws nothing. -/
theorem twenty_fifth_init_draws_nothing :
    (∃ cache, (inited 24).Standing 0 1 cache ∧ plaintext.blake2s firstNoise = cache.initHash) ∧
    ((inited 24).handleDatagram 0 0 (Plaintext.addrOf 1) (Plaintext.initOf 1 .musician) []).2 = [] :=
  ⟨inited_stands 24 (by decide +kernel) (by decide +kernel), by decide +kernel⟩

end ServerCore
end JamStream.Session
