import JamStream.Foundations.Costs
import JamStream.Session.Buckets
import JamStream.Session.Replies

/-! What a flood of inits can cost. Every read of an init is paid for by a token of two
buckets, the whole server's and the source's share of it, and every reject by a token of
a third; whatever else happens leaves all of them alone. -/

namespace JamStream.Session
open Protocol Engine Foundations TokenBucket
variable {X : Externals}

/-- When a call is made, where it matters to the call. -/
def Call.nowMs? : Call → Option UInt64
  | .handleDatagram nowMs .. | .tick nowMs | .shutdown nowMs _ | .setStreamStatus nowMs _ =>
    some nowMs
  | _ => none

def Call.Within (start stop : ℕ) (c : Call) : Prop :=
  ∀ nowMs ∈ c.nowMs?, start ≤ nowMs.toNat ∧ nowMs.toNat ≤ stop

instance Call.Within.decidable (start stop : ℕ) (c : Call) : Decidable (c.Within start stop) :=
  decidable_of_iff (c.nowMs?.all fun nowMs => start ≤ nowMs.toNat && nowMs.toNat ≤ stop) <| by
    rw [Option.all_eq_true]
    simp only [Bool.and_eq_true, decide_eq_true_eq]
    rfl

def isReject (p : SocketAddr × Bytes) : Bool :=
  p.2.head? = some Wire.typeVersionReject || p.2.head? = some Wire.typeCapacityReject

namespace ServerCore

/-- When and from where an init comes to the limiters in front of its read. -/
def reaching (s : ServerCore X) : Call → Option (UInt64 × SocketAddr)
  | .handleDatagram nowMs _ src data _ =>
    match Wire.parse data with
    | .ok (.handshakeInit version _) =>
      if version = protocolVersion ∧ !(s.cookieRequired nowMs).2 then some (nowMs, src) else none
    | .ok (.cookiedInit cookie version _) =>
      if version = protocolVersion ∧ (s.cookieRequired nowMs).1.cookieValid nowMs src cookie then
        some (nowMs, src)
      else none
    | _ => none
  | _ => none

def admitted (s : ServerCore X) (c : Call) : Option (UInt64 × SocketAddr) :=
  (s.reaching c).filter fun r => (s.initBudgetTake r.1 r.2).2

/-- Reads of inits of this version: what the counter of the core goes up by. -/
def reads (s : ServerCore X) (c : Call) : ℕ := ((s.step c).initReads - s.initReads).toNat

def readsIn (slot : ℕ) (s : ServerCore X) : Call → ℕ
  | .handleDatagram nowMs nowUnix src data ephemeral =>
    if s.limiterSlot src.ip = slot then s.reads (.handleDatagram nowMs nowUnix src data ephemeral)
    else 0
  | _ => 0

/-- Reads of inits of another version, for the key of the reject that answers them. -/
def rejectReads (s : ServerCore X) : Call → ℕ
  | .handleDatagram nowMs _ src data _ =>
    match Wire.parse data with
    | .ok (.handshakeInit version _) =>
      if version ≠ protocolVersion ∧ ¬data.length < rejectMinInitBytes then
        (s.takeRejectTurn nowMs src).2.toNat
      else 0
    | _ => 0
  | _ => 0

def rejects (s : ServerCore X) (c : Call) : ℕ := (s.call c).2.countP isReject

def share (s : ServerCore X) (slot : ℕ) : TokenBucket :=
  s.initSlotBudget.getD slot (.new initSlotBurst initSlotRatePerSec)

def funds (s : ServerCore X) : Bytes × List TokenBucket × TokenBucket × UInt64 :=
  (s.slotHasher, s.initSlotBudget, s.initBudget, s.initReads)

variable {s s' : ServerCore X} {nowMs : UInt64} {src : SocketAddr} {start stop : ℕ}

theorem funds_takeRejectTurn : (s.takeRejectTurn nowMs src).1.funds = s.funds := by
  simp only [takeRejectTurn]
  split_ifs <;> rfl

theorem funds_versionReject (theirs : UInt16) (noise initPacket : Bytes) :
    (s.versionReject nowMs src theirs noise initPacket).1.funds = s.funds := by
  simp only [versionReject]
  split_ifs
  · rfl
  · exact funds_takeRejectTurn
  · exact funds_takeRejectTurn

theorem funds_capacityReject (responder : Responder X.toCrypto) (initPacket : Bytes) :
    (s.capacityReject nowMs src responder initPacket).1.funds = s.funds := by
  simp only [capacityReject]
  split_ifs <;> exact funds_takeRejectTurn

theorem funds_cookieChallenge (initPacket : Bytes) :
    (s.cookieChallenge nowMs src initPacket).1.funds = s.funds := by
  simp only [cookieChallenge]
  split_ifs <;> rfl

theorem funds_of_gates (h : s'.gates = s.gates) : s'.funds = s.funds :=
  congrArg (fun g => (g.2.1, g.2.2.2.1, g.2.2.2.2.1, g.2.2.2.2.2)) h

theorem rejectBudget_of_gates (h : s'.gates = s.gates) : s'.rejectBudget = s.rejectBudget :=
  congrArg (fun g => g.2.2.1) h

theorem funds_admitToken (noise ephemeral : Bytes) (token : Token)
    (responder : Responder X.toCrypto) :
    (s.admitToken nowMs src noise ephemeral token responder).1.funds = s.funds := by
  have havailable := funds_of_gates (Aside.violationAvailable s nowMs token.memberId).gates
  simp only [admitToken]
  split
  · rfl
  · split
    · exact havailable
    · refine Eq.trans ?_ havailable
      split
      · rfl
      · split
        · exact funds_capacityReject responder _
        · exact funds_of_gates (takeSeat_spec _ nowMs src token responder _ ephemeral).1

/-- Both buckets have a token, or neither is charged: they are only refilled, and the
second one not even that when the first refuses. -/
theorem initBudgetTake_spec (s : ServerCore X) (nowMs : UInt64) (src : SocketAddr) :
    let slot := s.limiterSlot src.ip
    let share := (s.share slot).available nowMs
    let whole := s.initBudget.available nowMs
    s.initBudgetTake nowMs src =
      ({ s with
        initSlotBudget := s.initSlotBudget.set slot
          (if share.2 && whole.2 then (share.1.take nowMs).1 else share.1)
        initBudget := if share.2 && whole.2 then (whole.1.take nowMs).1
          else if share.2 then whole.1 else s.initBudget }, share.2 && whole.2) := by
  intro slot share whole
  have hshare : share.2 → (share.1.take nowMs).2 := take_of_available
  have hwhole : whole.2 → (whole.1.take nowMs).2 := take_of_available
  simp only [initBudgetTake]
  change (if !share.2 then _ else if !whole.2 then _ else _) = _
  cases hs : share.2 with
  | false => rfl
  | true =>
    cases hw : whole.2 with
    | false => rfl
    | true =>
      have htaken : (if (share.1.take nowMs).2 then whole.1.take nowMs else (whole.1, false)) =
          whole.1.take nowMs := if_pos (hshare hs)
      have hcharged := congrArg (fun r : TokenBucket × Bool =>
        ({ s with
          initSlotBudget := s.initSlotBudget.set slot (share.1.take nowMs).1
          initBudget := r.1 }, r.2)) htaken
      simp only [hwhole hw] at hcharged
      exact hcharged

def spent (s : ServerCore X) (nowMs : UInt64) (src : SocketAddr) : ServerCore X :=
  { (s.initBudgetTake nowMs src).1 with
    initReads := (s.initBudgetTake nowMs src).1.initReads +
      if (s.initBudgetTake nowMs src).2 then 1 else 0 }

theorem funds_spent (nowMs : UInt64) (src : SocketAddr) :
    let slot := s.limiterSlot src.ip
    let share := (s.share slot).available nowMs
    let whole := s.initBudget.available nowMs
    (s.spent nowMs src).funds = (s.slotHasher,
      s.initSlotBudget.set slot (if share.2 && whole.2 then (share.1.take nowMs).1 else share.1),
      (if share.2 && whole.2 then (whole.1.take nowMs).1 else if share.2 then whole.1
        else s.initBudget), s.initReads + if share.2 && whole.2 then 1 else 0) := by
  intro slot share whole
  simp only [spent]
  rw [initBudgetTake_spec]
  rfl

theorem funds_admitInit (nowUnix : UInt64) (noise ephemeral : Bytes) :
    (s.admitInit nowMs nowUnix src noise ephemeral).1.funds = (s.spent nowMs src).funds := by
  simp only [admitInit, spent]
  generalize s.initBudgetTake nowMs src = r
  obtain ⟨t, granted⟩ := r
  cases granted with
  | false =>
    show t.funds = { t with initReads := t.initReads + 0 }.funds
    rw [UInt64.add_zero]
  | true =>
    show _ = { t with initReads := t.initReads + 1 }.funds
    simp only [Bool.not_true, Bool.false_eq_true, if_false]
    split
    · rfl
    · split
      · rfl
      · exact funds_admitToken noise ephemeral _ _

theorem funds_handleTransport (id : MemberId) (counter : UInt64) (ciphertext : Bytes) :
    (s.handleTransport nowMs src id counter ciphertext).1.funds = s.funds :=
  funds_of_gates (Aside.handleTransport s nowMs src id counter ciphertext).gates

theorem funds_spent_cookieRequired (nowMs t : UInt64) :
    ((s.cookieRequired nowMs).1.spent t src).funds = (s.spent t src).funds := by
  rw [funds_spent, funds_spent]
  rfl

theorem funds_step (s : ServerCore X) (c : Call) :
    (s.step c).funds = (s.reaching c).elim s.funds fun r => (s.spent r.1 r.2).funds := by
  cases c with
  | handleDatagram nowMs nowUnix src data ephemeral =>
    have hcookie : (s.cookieRequired nowMs).1.funds = s.funds := rfl
    simp only [step, call, handleDatagram, reaching]
    generalize Wire.parse data = parsed
    rcases parsed with e | packet
    · rfl
    cases packet with
    | handshakeInit version noise =>
      simp only
      by_cases hversion : version = protocolVersion
      · rw [if_neg (not_not.mpr hversion)]
        cases hrequired : (s.cookieRequired nowMs).2 with
        | true =>
          rw [if_pos rfl, if_neg (by rintro ⟨-, ⟨⟩⟩)]
          exact (funds_cookieChallenge data).trans hcookie
        | false =>
          rw [if_neg Bool.false_ne_true, if_pos ⟨hversion, rfl⟩]
          exact (funds_admitInit nowUnix noise ephemeral).trans (funds_spent_cookieRequired _ _)
      · rw [if_pos hversion, if_neg fun h => hversion h.1]
        exact funds_versionReject version noise data
    | cookiedInit cookie version noise =>
      simp only
      by_cases hvalid : version = protocolVersion ∧
        (s.cookieRequired nowMs).1.cookieValid nowMs src cookie
      · rw [if_pos hvalid, if_pos hvalid]
        exact (funds_admitInit nowUnix noise ephemeral).trans (funds_spent_cookieRequired _ _)
      · rw [if_neg hvalid, if_neg hvalid]
        exact hcookie
    | transport id counter ciphertext => exact funds_handleTransport id counter ciphertext
    | _ => rfl
  | _ => exact funds_of_gates (Aside.call s (by rintro _ _ _ _ _ ⟨⟩)).gates

theorem initReads_step (s : ServerCore X) (c : Call) :
    (s.step c).initReads = s.initReads + if (s.admitted c).isSome then 1 else 0 := by
  have hfunds : (s.step c).initReads = _ := congrArg (fun f => f.2.2.2) (funds_step s c)
  rw [hfunds]
  unfold admitted
  cases s.reaching c with
  | none => exact (UInt64.add_zero _).symm
  | some r =>
    have hgranted : (s.initBudgetTake r.1 r.2).2 = _ :=
      congrArg Prod.snd (initBudgetTake_spec s r.1 r.2)
    have hspent : (s.spent r.1 r.2).initReads = _ :=
      congrArg (fun f => f.2.2.2) (funds_spent (s := s) r.1 r.2)
    show (s.spent r.1 r.2).initReads = _
    rw [hspent, Option.filter_some, hgranted]
    cases ((s.share (s.limiterSlot r.2.ip)).available r.1).2 with
    | false => rfl
    | true =>
      cases (s.initBudget.available r.1).2 with
      | false => rfl
      | true => rfl

theorem reads_eq (s : ServerCore X) (c : Call) : s.reads c = (s.admitted c).isSome.toNat := by
  rw [reads, initReads_step, add_comm, UInt64.add_sub_cancel]
  cases (s.admitted c).isSome with
  | true => rfl
  | false => rfl

theorem admitted_src {nowMs nowUnix : UInt64} {src : SocketAddr} {data ephemeral : Bytes}
    {r : UInt64 × SocketAddr}
    (h : s.admitted (.handleDatagram nowMs nowUnix src data ephemeral) = some r) : r.2 = src := by
  obtain ⟨hreach, -⟩ := Option.filter_eq_some_iff.mp h
  simp only [reaching] at hreach
  split at hreach
  · split_ifs at hreach
    obtain rfl := Option.some.inj hreach
    rfl
  · split_ifs at hreach
    obtain rfl := Option.some.inj hreach
    rfl
  · cases hreach

theorem readsIn_eq (s : ServerCore X) (slot : ℕ) (c : Call) : s.readsIn slot c =
    ((s.admitted c).any fun r => s.limiterSlot r.2.ip = slot).toNat := by
  cases c with
  | handleDatagram nowMs nowUnix src data ephemeral =>
    rw [readsIn, reads_eq]
    cases hadmitted : s.admitted (.handleDatagram nowMs nowUnix src data ephemeral) with
    | none => split_ifs <;> rfl
    | some r =>
      obtain rfl := admitted_src hadmitted
      split_ifs with hslot
      · rw [Option.any_some, decide_eq_true hslot]
        rfl
      · rw [Option.any_some, decide_eq_false hslot]
        rfl
  | _ => rfl

theorem initReads_run (s : ServerCore X) (calls : List Call) :
    (Runs.run step s calls).initReads =
      s.initReads + UInt64.ofNat (Runs.total step reads s calls) := by
  induction calls generalizing s with
  | nil => exact (UInt64.add_zero _).symm
  | cons c calls ih =>
    have hstep : (s.step c).initReads = s.initReads + UInt64.ofNat (s.reads c) := by
      rw [reads, UInt64.ofNat_toNat, add_comm, UInt64.sub_add_cancel]
    rw [Runs.run_cons, ih, hstep, add_assoc, ← UInt64.ofNat_add]
    rfl

/-! ## Paying -/

theorem limiterSlot_lt (s : ServerCore X) (ip : IpAddr) : s.limiterSlot ip < rejectSlots :=
  Nat.and_lt_two_pow (n := 8) _ (by decide)

theorem reaching_within {c : Call} {r : UInt64 × SocketAddr} (hc : c.Within start stop)
    (h : s.reaching c = some r) : start ≤ r.1.toNat ∧ r.1.toNat ≤ stop := by
  cases c with
  | handleDatagram nowMs nowUnix src data ephemeral =>
    have hnow := hc nowMs rfl
    simp only [reaching] at h
    split at h
    · split_ifs at h
      obtain rfl := Option.some.inj h
      exact hnow
    · split_ifs at h
      obtain rfl := Option.some.inj h
      exact hnow
    · cases h
  | _ => cases h

theorem spends_available (b : TokenBucket) (hstart : start ≤ nowMs.toNat)
    (hstop : nowMs.toNat ≤ stop) {capacity perSec : UInt32} (h : (b.available nowMs).2) :
    Spends start stop capacity perSec 1 b ((b.available nowMs).1.take nowMs).1 := by
  have hlooked : Spends start stop capacity perSec 0 b (b.available nowMs).1 :=
    .refill b hstart hstop
  have htaken : Spends start stop capacity perSec ((b.available nowMs).1.take nowMs).2.toNat
      (b.available nowMs).1 ((b.available nowMs).1.take nowMs).1 := .take _ hstart hstop
  rw [take_of_available h] at htaken
  exact (hlooked.trans htaken).mono le_rfl

theorem spends_whole (s : ServerCore X) (src : SocketAddr) (hstart : start ≤ nowMs.toNat)
    (hstop : nowMs.toNat ≤ stop) :
    Spends start stop initBurst initRatePerSec (s.initBudgetTake nowMs src).2.toNat s.initBudget
      (s.spent nowMs src).initBudget := by
  have hfunds := congrArg (fun f => f.2.2.1) (funds_spent (s := s) nowMs src)
  have hgranted := congrArg Prod.snd (initBudgetTake_spec s nowMs src)
  simp only [funds] at hfunds hgranted
  rw [hfunds, hgranted]
  cases hwhole : (s.initBudget.available nowMs).2 with
  | true =>
    cases ((s.share (s.limiterSlot src.ip)).available nowMs).2 with
    | true => exact spends_available _ hstart hstop hwhole
    | false => exact .none _
  | false =>
    cases ((s.share (s.limiterSlot src.ip)).available nowMs).2 with
    | true => exact .refill _ hstart hstop
    | false => exact .none _

theorem share_spent (hlen : s.initSlotBudget.length = rejectSlots) (slot : ℕ) :
    let own := (s.share slot).available nowMs
    (s.spent nowMs src).share slot =
      if s.limiterSlot src.ip = slot then
        if own.2 && (s.initBudget.available nowMs).2 then (own.1.take nowMs).1 else own.1
      else s.share slot := by
  intro own
  have hfunds : (s.spent nowMs src).initSlotBudget = _ :=
    congrArg (fun f => f.2.1) (funds_spent (s := s) nowMs src)
  have hlt : s.limiterSlot src.ip < s.initSlotBudget.length := hlen ▸ limiterSlot_lt s src.ip
  show (s.spent nowMs src).initSlotBudget.getD slot _ = _
  rw [hfunds, List.getD_eq_getElem?_getD]
  by_cases hslot : s.limiterSlot src.ip = slot
  · subst hslot
    rw [if_pos rfl, List.getElem?_set_self hlt, Option.getD_some]
  · rw [if_neg hslot, List.getElem?_set_ne hslot]
    rfl

theorem spends_share (src : SocketAddr) (hlen : s.initSlotBudget.length = rejectSlots) (slot : ℕ)
    (hstart : start ≤ nowMs.toNat) (hstop : nowMs.toNat ≤ stop) :
    Spends start stop initSlotBurst initSlotRatePerSec
      ((s.initBudgetTake nowMs src).2 && s.limiterSlot src.ip = slot).toNat (s.share slot)
      ((s.spent nowMs src).share slot) := by
  have hgranted : (s.initBudgetTake nowMs src).2 = _ :=
    congrArg Prod.snd (initBudgetTake_spec s nowMs src)
  rw [hgranted, share_spent hlen]
  by_cases hslot : s.limiterSlot src.ip = slot
  · rw [if_pos hslot, hslot, decide_eq_true rfl, Bool.and_true]
    cases hown : ((s.share slot).available nowMs).2 with
    | true =>
      cases (s.initBudget.available nowMs).2 with
      | true => exact spends_available _ hstart hstop hown
      | false => exact .refill _ hstart hstop
    | false => exact .refill _ hstart hstop
  · rw [if_neg hslot, decide_eq_false hslot, Bool.and_false]
    exact .none _

theorem step_initBudget {c : Call} (hc : c.Within start stop) :
    Spends start stop initBurst initRatePerSec (s.reads c) s.initBudget
      (s.step c).initBudget := by
  have hfunds := congrArg (fun f => f.2.2.1) (funds_step s c)
  rw [reads_eq, admitted]
  cases hreach : s.reaching c with
  | none =>
    rw [hreach] at hfunds
    exact .of_eq hfunds
  | some r =>
    obtain ⟨hstart, hstop⟩ := reaching_within hc hreach
    have hpaid := spends_whole s r.2 hstart hstop
    rw [hreach] at hfunds
    change (s.step c).initBudget = (s.spent r.1 r.2).initBudget at hfunds
    rw [hfunds, Option.filter_some]
    cases hgranted : (s.initBudgetTake r.1 r.2).2 with
    | true =>
      rw [hgranted] at hpaid
      exact hpaid
    | false =>
      rw [hgranted] at hpaid
      exact hpaid

theorem step_share (hlen : s.initSlotBudget.length = rejectSlots) (slot : ℕ) {c : Call}
    (hc : c.Within start stop) :
    Spends start stop initSlotBurst initSlotRatePerSec (s.readsIn slot c) (s.share slot)
      ((s.step c).share slot) := by
  have hfunds := congrArg (fun f => f.2.1.getD slot (.new initSlotBurst initSlotRatePerSec))
    (funds_step s c)
  rw [readsIn_eq, admitted]
  cases hreach : s.reaching c with
  | none =>
    rw [hreach] at hfunds
    exact .of_eq hfunds
  | some r =>
    obtain ⟨hstart, hstop⟩ := reaching_within hc hreach
    have hpaid := spends_share r.2 hlen slot hstart hstop
    rw [hreach] at hfunds
    change (s.step c).share slot = (s.spent r.1 r.2).share slot at hfunds
    rw [hfunds, Option.filter_some]
    cases hgranted : (s.initBudgetTake r.1 r.2).2 with
    | true =>
      rw [hgranted, Bool.true_and] at hpaid
      exact hpaid
    | false =>
      rw [hgranted, Bool.false_and] at hpaid
      exact hpaid

theorem spends_turn (s : ServerCore X) (src : SocketAddr) (hstart : start ≤ nowMs.toNat)
    (hstop : nowMs.toNat ≤ stop) :
    Spends start stop rejectBurst rejectRatePerSec (s.takeRejectTurn nowMs src).2.toNat
      s.rejectBudget (s.takeRejectTurn nowMs src).1.rejectBudget := by
  have htaken : Spends start stop rejectBurst rejectRatePerSec (s.rejectBudget.take nowMs).2.toNat
      s.rejectBudget (s.rejectBudget.take nowMs).1 := .take _ hstart hstop
  simp only [takeRejectTurn]
  split
  · exact .none _
  · cases hgranted : (s.rejectBudget.take nowMs).2 with
    | true =>
      rw [hgranted] at htaken
      exact htaken
    | false =>
      rw [hgranted] at htaken
      exact htaken

theorem countP_sealed {out : Outgoing} (h : Sealed out) : out.countP isReject = 0 := by
  refine List.countP_eq_zero.mpr fun p hp => ?_
  unfold isReject
  rw [h p hp]
  decide

theorem countP_responds {out : Outgoing} (h : Responds X src out) : out.countP isReject = 0 := by
  obtain rfl | ⟨resp, ⟨r, welcome, ephemeral, session, hrespond⟩, rfl⟩ := h
  · rfl
  · have hhead : resp.head? = some Wire.typeHandshakeResp := by
      unfold Responder.respond at hrespond
      split at hrespond
      · cases hrespond
      · split at hrespond
        · cases hrespond
        · obtain rfl := (Prod.mk.inj (Except.ok.inj hrespond)).2
          rfl
    refine List.countP_eq_zero.mpr fun p hp => ?_
    rw [List.mem_singleton.mp hp]
    unfold isReject
    rw [hhead]
    decide

theorem countP_toList_le {α : Type*} (build : α → SocketAddr × Bytes) (key : Option α) :
    (key.map build).toList.countP isReject ≤ 1 := by
  refine List.countP_le_length.trans ?_
  cases key <;> simp

theorem spends_capacityReject (hstart : start ≤ nowMs.toNat) (hstop : nowMs.toNat ≤ stop)
    (responder : Responder X.toCrypto) (initPacket : Bytes) :
    Spends start stop rejectBurst rejectRatePerSec
      ((s.capacityReject nowMs src responder initPacket).2.countP isReject) s.rejectBudget
      (s.capacityReject nowMs src responder initPacket).1.rejectBudget := by
  have hturn := spends_turn s src hstart hstop
  simp only [capacityReject]
  cases hgranted : (s.takeRejectTurn nowMs src).2 with
  | true =>
    rw [hgranted] at hturn
    exact hturn.mono (countP_toList_le _ _)
  | false =>
    rw [hgranted] at hturn
    exact hturn

/-- A reject for the version costs a turn and a read, and answers with one packet at most. -/
theorem spends_versionReject (hstart : start ≤ nowMs.toNat) (hstop : nowMs.toNat ≤ stop)
    (theirs : UInt16) (noise initPacket : Bytes) :
    Spends start stop rejectBurst rejectRatePerSec
      (max ((s.versionReject nowMs src theirs noise initPacket).2.countP isReject)
        (if ¬initPacket.length < rejectMinInitBytes then (s.takeRejectTurn nowMs src).2.toNat
          else 0)) s.rejectBudget
      (s.versionReject nowMs src theirs noise initPacket).1.rejectBudget := by
  have hturn := spends_turn s src hstart hstop
  simp only [versionReject]
  by_cases hshort : initPacket.length < rejectMinInitBytes
  · rw [if_pos hshort, if_neg (not_not.mpr hshort)]
    exact .none _
  · rw [if_neg hshort, if_pos hshort]
    cases hgranted : (s.takeRejectTurn nowMs src).2 with
    | true =>
      rw [hgranted] at hturn
      exact hturn.mono (max_le (countP_toList_le _ _) le_rfl)
    | false =>
      rw [hgranted] at hturn
      exact hturn

theorem spends_admitToken (hs : s.Answered) (hstart : start ≤ nowMs.toNat)
    (hstop : nowMs.toNat ≤ stop) (noise ephemeral : Bytes) (token : Token)
    (responder : Responder X.toCrypto) :
    Spends start stop rejectBurst rejectRatePerSec
      ((s.admitToken nowMs src noise ephemeral token responder).2.countP isReject)
      s.rejectBudget (s.admitToken nowMs src noise ephemeral token responder).1.rejectBudget := by
  have havailable := Aside.violationAvailable s nowMs token.memberId
  have hbudget := rejectBudget_of_gates havailable.gates
  simp only [admitToken]
  split
  · exact .none _
  · split
    · exact .of_eq hbudget
    · split
      · rename_i out hout
        rw [countP_responds (liveAnswer_spec (havailable.answered hs) hout)]
        exact .of_eq hbudget
      · rw [← hbudget]
        split
        · exact spends_capacityReject hstart hstop responder _
        · obtain ⟨hgates, -, hresponds⟩ := takeSeat_spec (s.violationAvailable nowMs
            token.memberId).1 nowMs src token responder (X.blake2s noise) ephemeral
          rw [countP_responds hresponds]
          exact .of_eq (rejectBudget_of_gates hgates)

theorem spends_admitInit (hs : s.Answered) (hstart : start ≤ nowMs.toNat)
    (hstop : nowMs.toNat ≤ stop) (nowUnix : UInt64) (noise ephemeral : Bytes) :
    Spends start stop rejectBurst rejectRatePerSec
      ((s.admitInit nowMs nowUnix src noise ephemeral).2.countP isReject) s.rejectBudget
      (s.admitInit nowMs nowUnix src noise ephemeral).1.rejectBudget := by
  have hasked := hs.initBudgetTake nowMs src
  have hbudget := congrArg (fun r => r.1.rejectBudget) (initBudgetTake_spec s nowMs src)
  change (s.initBudgetTake nowMs src).1.rejectBudget = s.rejectBudget at hbudget
  simp only [admitInit]
  generalize s.initBudgetTake nowMs src = r at hasked hbudget ⊢
  rw [← hbudget]
  split
  · exact .none _
  · have hread : { r.1 with initReads := r.1.initReads + 1 }.Answered := hasked.of_members rfl
    split
    · exact .none _
    · split
      · exact .none _
      · exact spends_admitToken hread hstart hstop noise ephemeral _ _

theorem spends_cookieChallenge (initPacket : Bytes) :
    Spends start stop rejectBurst rejectRatePerSec
      ((s.cookieChallenge nowMs src initPacket).2.countP isReject) s.rejectBudget
      (s.cookieChallenge nowMs src initPacket).1.rejectBudget := by
  simp only [cookieChallenge]
  split
  · exact .none _
  · split
    · rw [List.countP_singleton, if_neg (by unfold isReject; exact Bool.false_ne_true)]
      exact .none _
    · exact .none _

theorem step_aside {c : Call} (hc : ∀ nowMs nowUnix src data ephemeral,
    c ≠ .handleDatagram nowMs nowUnix src data ephemeral) :
    Spends start stop rejectBurst rejectRatePerSec (max (s.rejects c) (s.rejectReads c))
      s.rejectBudget (s.step c).rejectBudget := by
  have hrejects : s.rejects c = 0 := countP_sealed (call_sealed s hc)
  have hreads : s.rejectReads c = 0 := by
    cases c with
    | handleDatagram nowMs nowUnix src data ephemeral => exact absurd rfl (hc _ _ _ _ _)
    | _ => rfl
  rw [hrejects, hreads]
  exact .of_eq (rejectBudget_of_gates (Aside.call s hc).gates)

theorem step_rejectBudget (hs : s.Answered) {c : Call} (hc : c.Within start stop) :
    Spends start stop rejectBurst rejectRatePerSec (max (s.rejects c) (s.rejectReads c))
      s.rejectBudget (s.step c).rejectBudget := by
  cases c with
  | handleDatagram nowMs nowUnix src data ephemeral =>
    obtain ⟨hstart, hstop⟩ := hc nowMs rfl
    have hcookie : (s.cookieRequired nowMs).1.Answered := hs.of_members rfl
    simp only [rejects, rejectReads, step, call, handleDatagram]
    generalize Wire.parse data = parsed
    rcases parsed with e | packet
    · exact .none _
    cases packet with
    | handshakeInit version noise =>
      simp only
      by_cases hversion : version = protocolVersion
      · have hread : (if version ≠ protocolVersion ∧ ¬data.length < rejectMinInitBytes then
            (s.takeRejectTurn nowMs src).2.toNat else 0) = 0 := if_neg fun h => h.1 hversion
        rw [if_neg (not_not.mpr hversion), hread, Nat.max_zero]
        split
        · exact spends_cookieChallenge data
        · exact spends_admitInit hcookie hstart hstop nowUnix noise ephemeral
      · rw [if_pos hversion]
        simp only [ne_eq, hversion, not_false_eq_true, true_and]
        exact spends_versionReject hstart hstop version noise data
    | cookiedInit cookie version noise =>
      simp only [Nat.max_zero]
      split
      · exact spends_admitInit hcookie hstart hstop nowUnix noise ephemeral
      · exact .none _
    | transport id counter ciphertext =>
      simp only [Nat.max_zero, countP_sealed (handleTransport_sealed s nowMs src id counter
        ciphertext)]
      exact .of_eq (rejectBudget_of_gates (Aside.handleTransport s nowMs src _ _ _).gates)
    | _ => exact .none _
  | _ => exact step_aside (by rintro _ _ _ _ _ ⟨⟩)

/-! ## Over a run -/

/-- Every bucket holds what it can hold at most, and there is one for each slot. -/
structure Budgeted (s : ServerCore X) : Prop where
  answered : s.Answered
  whole : s.initBudget.Sound initBurst initRatePerSec
  shares : s.initSlotBudget.length = rejectSlots
  share : ∀ slot, (s.share slot).Sound initSlotBurst initSlotRatePerSec
  rejects : s.rejectBudget.Sound rejectBurst rejectRatePerSec

theorem budgeted_start (cfg : ServerConfig) (logTail : Option LogTail) (jtis : List TokenId) :
    (ServerCore.start X cfg logTail jtis).Budgeted where
  answered := answered_start cfg logTail jtis
  whole := new_sound _ _
  shares := List.length_replicate
  share slot := by
    show ((List.replicate rejectSlots (TokenBucket.new initSlotBurst initSlotRatePerSec)).getD slot
      (.new initSlotBurst initSlotRatePerSec)).Sound initSlotBurst initSlotRatePerSec
    rw [List.getD_eq_getElem?_getD, List.getElem?_replicate]
    split_ifs <;> exact new_sound _ _
  rejects := new_sound _ _

theorem shares_step (s : ServerCore X) (c : Call) :
    (s.step c).initSlotBudget.length = s.initSlotBudget.length := by
  have hfunds : (s.step c).initSlotBudget = _ := congrArg (fun f => f.2.1) (funds_step s c)
  rw [hfunds]
  cases s.reaching c with
  | none => rfl
  | some r =>
    show (s.spent r.1 r.2).initSlotBudget.length = _
    have hspent : (s.spent r.1 r.2).initSlotBudget = _ :=
      congrArg (fun f => f.2.1) (funds_spent (s := s) r.1 r.2)
    rw [hspent]
    exact List.length_set

theorem within_all (c : Call) : c.Within 0 (2 ^ 64) :=
  fun nowMs _ => ⟨Nat.zero_le _, nowMs.toNat_lt.le⟩

theorem Budgeted.step (hs : s.Budgeted) (c : Call) : (s.step c).Budgeted where
  answered := hs.answered.step c
  whole := (step_initBudget (within_all c) hs.whole).1
  shares := (shares_step s c).trans hs.shares
  share slot := (step_share hs.shares slot (within_all c) (hs.share slot)).1
  rejects := (step_rejectBudget hs.answered (within_all c) hs.rejects).1

theorem total_le {capacity perSec : UInt32} {bucket : ServerCore X → TokenBucket}
    {cost : ServerCore X → Call → ℕ} {T : ℕ}
    (hpays : ∀ s, s.Budgeted → ∀ c : Call, c.Within start (start + T) →
      Spends start (start + T) capacity perSec (cost s c) (bucket s) (bucket (s.step c)))
    (hs : s.Budgeted) (hsound : (bucket s).Sound capacity perSec) {calls : List Call}
    (hcalls : ∀ c ∈ calls, c.Within start (start + T)) :
    Runs.total step cost s calls ≤ capacity.toNat + perSec.toNat * T / 1000 := by
  let allowed (s : ServerCore X) : ℕ := (bucket s).allowance start (start + T)
  have hstep : ∀ s, ∀ c ∈ calls, s.Budgeted ∧ (bucket s).Sound capacity perSec →
      ((s.step c).Budgeted ∧ (bucket (s.step c)).Sound capacity perSec) ∧
        1000 * cost s c + allowed (s.step c) ≤ allowed s := by
    intro s c hc ⟨hs, hsound⟩
    obtain ⟨hsound', hpaid⟩ := hpays s hs c (hcalls c hc) hsound
    exact ⟨⟨hs.step c, hsound'⟩, hpaid⟩
  have htotal : 1000 * Runs.total step cost s calls ≤ allowed s :=
    Runs.total_le_potential hstep ⟨hs, hsound⟩
  have hallowed : allowed s ≤ _ := hsound.allowance_le start (start + T)
  rw [Nat.add_sub_cancel_left] at hallowed
  omega

theorem admitInit_refused (h : (s.initBudgetTake nowMs src).2 = false) (nowUnix : UInt64)
    (noise ephemeral : Bytes) :
    s.admitInit nowMs nowUnix src noise ephemeral = ((s.initBudgetTake nowMs src).1, []) := by
  rw [admitInit]
  dsimp only
  rw [h, Bool.not_false, if_pos rfl]

theorem versionReject_refused (h : (s.takeRejectTurn nowMs src).2 = false) (theirs : UInt16)
    (noise initPacket : Bytes) :
    s.versionReject nowMs src theirs noise initPacket = s.versionReject nowMs src theirs []
      initPacket ∧ (s.versionReject nowMs src theirs noise initPacket).2 = [] := by
  simp only [versionReject]
  split_ifs with hshort hturn
  · exact ⟨rfl, rfl⟩
  · cases h.symm.trans hturn
  · exact ⟨rfl, rfl⟩

/-- Over any stretch of `T` milliseconds of a run: the reads of inits that the core counts, overall
and for the sources of one slot, the reads for rejects, and the rejects themselves. An init that is
refused by one bucket is charged to neither, and what the limiters refuse is not read. -/
theorem flood_budget (X : Externals) (cfg : ServerConfig) (logTail : Option LogTail)
    (jtis : List TokenId) (before window : List Call) (start T : ℕ)
    (hwindow : ∀ c ∈ window, c.Within start (start + T)) :
    let s := Runs.run step (ServerCore.start X cfg logTail jtis) before
    Runs.total step reads s window ≤ 64 + 32 * T / 1000 ∧
      (Runs.run step s window).initReads = s.initReads +
        UInt64.ofNat (Runs.total step reads s window) ∧
      (∀ slot, Runs.total step (readsIn slot) s window ≤ 24 + 8 * T / 1000) ∧
      Runs.total step rejectReads s window ≤ 16 + 16 * T / 1000 ∧
      Runs.total step rejects s window ≤ 16 + 16 * T / 1000 ∧
      (∀ nowMs src, (s.initBudgetTake nowMs src).2 = false →
        (s.initBudgetTake nowMs src).1.initSlotBudget = s.initSlotBudget.set
          (s.limiterSlot src.ip) ((s.share (s.limiterSlot src.ip)).refill nowMs) ∧
        ((s.initBudgetTake nowMs src).1.initBudget = s.initBudget ∨
          (s.initBudgetTake nowMs src).1.initBudget = s.initBudget.refill nowMs) ∧
        ∀ nowUnix noise ephemeral, s.admitInit nowMs nowUnix src noise ephemeral =
          ((s.initBudgetTake nowMs src).1, [])) ∧
      ∀ nowMs src, (s.takeRejectTurn nowMs src).2 = false → ∀ theirs noise initPacket,
        s.versionReject nowMs src theirs noise initPacket =
          s.versionReject nowMs src theirs [] initPacket ∧
        (s.versionReject nowMs src theirs noise initPacket).2 = [] := by
  intro s
  have hs : s.Budgeted := Runs.run_invariant (fun _ c hs => hs.step c)
    (budgeted_start cfg logTail jtis) before
  refine ⟨?_, initReads_run s window, fun slot => ?_, ?_, ?_, fun nowMs src hrefused => ?_,
    fun nowMs src hrefused => versionReject_refused hrefused⟩
  · -- one law of a bucket over a window, at each of the buckets in turn
    exact total_le (fun _ _ _ hc => step_initBudget hc) hs hs.whole hwindow
  · exact total_le (fun _ ht _ hc => step_share ht.shares slot hc) hs (hs.share slot) hwindow
  · exact total_le (fun _ ht _ hc => (step_rejectBudget ht.answered hc).mono (le_max_right _ _)) hs
      hs.rejects hwindow
  · exact total_le (fun _ ht _ hc => (step_rejectBudget ht.answered hc).mono (le_max_left _ _)) hs
      hs.rejects hwindow
  · have hunread := admitInit_refused hrefused
    have hspec := initBudgetTake_spec s nowMs src
    rw [hspec] at hrefused hunread ⊢
    simp only at hrefused hunread ⊢
    rw [hrefused] at hunread ⊢
    refine ⟨rfl, ?_, hunread⟩
    -- the global bucket is looked at only if the slot's own has a token
    cases ((s.share (s.limiterSlot src.ip)).available nowMs).2 with
    | true => exact .inr rfl
    | false => exact .inl rfl

theorem flood_budget_burst :
    let src := Plaintext.addrOf 1
    let init : Bytes → Call := fun data => .handleDatagram 5000 0 src data []
    let window := [init [1, 2, 0], init [1, 2, 0], init (1 :: 3 :: List.replicate 46 0)]
    let s := Runs.run step (ServerCore.start plaintext Plaintext.config none []) []
    Runs.total step reads s window = 2 ∧ Runs.total step reads s window ≤ 64 + 32 * 0 / 1000 :=
  ⟨by decide +kernel, (flood_budget plaintext Plaintext.config none [] [] _ 5000 0
    (by decide +kernel)).1⟩

/-- Every read of an init from a source of one slot, whatever its version. -/
def noiseReadsIn (slot : ℕ) (s : ServerCore X) (c : Call) : ℕ :=
  s.readsIn slot c +
    match c with
    | .handleDatagram _ _ src _ _ => if s.limiterSlot src.ip = slot then s.rejectReads c else 0
    | _ => 0

/-- The share of a slot is used up, and one more of its inits is read. -/
theorem flood_reads_for_rejects :
    let src := Plaintext.addrOf 1
    let init : Bytes → Call := fun data => .handleDatagram 5000 0 src data []
    let window := List.replicate 24 (init [1, 2, 0]) ++ [init (1 :: 3 :: List.replicate 46 0)]
    let s := ServerCore.start plaintext Plaintext.config none []
    (∀ c ∈ window, c.Within 5000 5000) ∧
      ¬Runs.total step (noiseReadsIn (s.limiterSlot src.ip)) s window ≤ 24 + 8 * 0 / 1000 := by
  decide +kernel

end ServerCore
end JamStream.Session
