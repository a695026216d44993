import JamStream.Protocol.LinkPair

/-! One link through any sequence of calls, the packets coming from a peer that
may put anything on the wire. The counters hold for fewer calls than they have
values; the send window holds exactly as long as no ack comes near the end of its
range, where the window's limit wraps and shuts it. -/

namespace JamStream.Protocol
open Foundations OrderedMap Runs ControlLink
open Std (ExtTreeMap)

inductive LinkOp
  | send (msg : ControlMsg)
  | poll (nowMs : UInt64)
  | packet (pkt : CtlPacket)

def LinkOp.step (C : Codec CtlPacket) (l : ControlLink) : LinkOp → ControlLink
  | .send msg => (l.send msg).toOption.getD l
  | .poll nowMs => (l.poll C nowMs).1
  | .packet pkt => (l.receivePacket pkt).1

namespace ControlLink
variable {C : Codec CtlPacket}

theorem send_cases (l : ControlLink) (msg : ControlMsg) :
    (l.send msg).toOption.getD l = l ∨
    (l.send msg).toOption.getD l = { l with
      nextSeq := l.nextSeq + 1
      pending := l.pending ++ [{ seq := l.nextSeq, msg, nextSendMs := 0, sends := 0 }] } := by
  cases h : l.send msg with
  | error e => exact .inl rfl
  | ok l' => exact .inr (send_ok h).2.2

theorem Windowed.step {l : ControlLink} (hw : l.Windowed) (op : LinkOp) :
    (op.step C l).Windowed := by
  cases op with
  | send msg =>
    rcases send_cases l msg with h | h <;> rw [LinkOp.step, h] <;> exact hw
  | poll nowMs => exact hw
  | packet pkt => exact hw.receivePacket pkt

theorem windowed_run (ops : List LinkOp) : (run (LinkOp.step C) ControlLink.new ops).Windowed :=
  run_invariant (fun _ op hw => hw.step op) (by intro k hk; simp [ControlLink.new] at hk) ops

theorem drain_size (n : ℕ) (next : UInt64) (buf : ExtTreeMap UInt64 ControlMsg) :
    (drain n next buf).2.1.size + (drain n next buf).2.2.length = buf.size := by
  induction n generalizing next buf with
  | zero => rfl
  | succ n ih =>
    cases hb : buf[next]? with
    | none => simp only [drain, hb, List.length_nil, Nat.add_zero]
    | some msg =>
      have hmem : buf.contains next := ExtTreeMap.contains_iff_mem.mpr (mem_of_getElem? hb)
      have hpos : buf.size ≠ 0 := by
        intro h0
        rw [ExtTreeMap.eq_empty_iff_size_eq_zero.mpr h0, ExtTreeMap.getElem?_empty] at hb
        cases hb
      have hrec := ih (next + 1) (buf.erase next)
      rw [ExtTreeMap.size_erase, if_pos hmem] at hrec
      simp only [drain, hb, List.length_cons]
      omega

theorem takeFrame_taken {l : ControlLink} (hw : l.Windowed) (seq : UInt64) (msg : ControlMsg) :
    (l.takeFrame seq msg).1.recvNext.toNat + (l.takeFrame seq msg).1.outOfOrder.size ≤
      l.recvNext.toNat + l.outOfOrder.size + 1 := by
  by_cases h : l.inWindow seq = true ∧ seq ∉ l.outOfOrder
  · have hlen := (takeFrame_spec msg hw h.1 h.2).1
    have hsize : (l.takeFrame seq msg).1.outOfOrder.size + (l.takeFrame seq msg).2.length =
        (l.outOfOrder.insert seq msg).size := by
      have hcontains : l.outOfOrder.contains seq = false := by
        simpa only [Bool.eq_false_iff, ne_eq, ExtTreeMap.contains_iff_mem] using h.2
      simpa only [takeFrame, h.1, hcontains, Bool.not_false, Bool.and_self, if_true]
        using drain_size (l.outOfOrder.insert seq msg).size l.recvNext (l.outOfOrder.insert seq msg)
    have hins := ExtTreeMap.size_insert_le (t := l.outOfOrder) (k := seq) (v := msg)
    omega
  · rw [takeFrame_of_not h]
    exact Nat.le_succ _

structure Within (n : ℕ) (l : ControlLink) : Prop where
  windowed : l.Windowed
  ascending : l.pending.Pairwise fun p q => p.seq < q.seq
  below : ∀ p ∈ l.pending, p.seq < l.nextSeq
  sent : l.nextSeq.toNat ≤ n
  taken : l.recvNext.toNat + l.outOfOrder.size ≤ n

theorem new_within : Within 0 ControlLink.new where
  windowed := by intro k hk; simp [ControlLink.new] at hk
  ascending := .nil
  below := by simp [ControlLink.new]
  sent := le_rfl
  taken := le_rfl

theorem Within.mono {m n : ℕ} {l : ControlLink} (h : Within m l) (hmn : m ≤ n) : Within n l :=
  { h with sent := h.sent.trans hmn, taken := h.taken.trans hmn }

theorem Within.send {n : ℕ} {l : ControlLink} (h : Within n l) (hn : n + 1 < 2 ^ 64)
    (msg : ControlMsg) : Within (n + 1) (l.send msg |>.toOption.getD l) := by
  have hsent := h.sent
  have hnext : (l.nextSeq + 1).toNat = l.nextSeq.toNat + 1 := by
    rw [UInt64.toNat_add, UInt64.toNat_one]
    exact Nat.mod_eq_of_lt (by omega)
  have hlt : l.nextSeq < l.nextSeq + 1 := by
    rw [UInt64.lt_iff_toNat_lt, hnext]
    omega
  rcases send_cases l msg with hs | hs <;> rw [hs]
  · exact h.mono (by omega)
  · refine { h.mono (Nat.le_succ n) with ascending := ?_, below := ?_, sent := by simp only; omega }
    · rw [List.pairwise_append]
      refine ⟨h.ascending, List.pairwise_singleton _ _, ?_⟩
      intro p hp q hq
      rw [List.mem_singleton.mp hq]
      exact h.below p hp
    · intro p hp
      rcases List.mem_append.mp hp with hp | hp
      · exact UInt64.lt_trans (h.below p hp) hlt
      · rw [List.mem_singleton.mp hp]
        exact hlt

theorem Within.poll {n : ℕ} {l : ControlLink} (h : Within n l) (nowMs : UInt64) :
    Within n (l.poll C nowMs).1 := by
  have hmap : (l.poll C nowMs).1.pending.map Pending.seq = l.pending.map Pending.seq := by
    have hq := congrArg (List.map Prod.fst) (pollScan_queue l.sendLimit nowMs
      (fun p => encode C (l.framePacket p)) l.pending)
    rw [List.map_map, List.map_map] at hq
    exact hq
  refine { h with ascending := ?_, below := ?_ }
  · have hs := h.ascending.map Pending.seq (S := (· < ·)) fun _ _ hpq => hpq
    rw [← hmap] at hs
    exact List.pairwise_map.mp hs
  · intro p hp
    have hmem : p.seq ∈ l.pending.map Pending.seq := hmap ▸ List.mem_map_of_mem hp
    obtain ⟨q, hq, heq⟩ := List.mem_map.mp hmem
    exact heq ▸ h.below q hq

theorem Within.takeAck {n : ℕ} {l : ControlLink} (h : Within n l) (pkt : CtlPacket)
    (needAck : Bool) : Within n { l.takeAck pkt with needAck } :=
  { h with
    ascending := h.ascending.filter _
    below := fun p hp => h.below p (List.mem_filter.mp hp).1 }

theorem Within.takeFrame {n : ℕ} {l : ControlLink} (h : Within n l) (seq : UInt64)
    (msg : ControlMsg) : Within (n + 1) (l.takeFrame seq msg).1 where
  windowed := h.windowed.takeFrame seq msg
  ascending := by
    rw [takeFrame_fst]
    exact h.ascending
  below := by
    rw [takeFrame_fst]
    exact h.below
  sent := by
    rw [takeFrame_fst]
    exact h.sent.trans (Nat.le_succ n)
  taken := (takeFrame_taken h.windowed seq msg).trans (Nat.succ_le_succ h.taken)

theorem Within.step {n : ℕ} {l : ControlLink} (h : Within n l) (hn : n + 1 < 2 ^ 64)
    (op : LinkOp) : Within (n + 1) (op.step C l) := by
  cases op with
  | send msg => exact h.send hn msg
  | poll nowMs => exact (h.poll nowMs).mono (Nat.le_succ n)
  | packet pkt =>
    obtain ⟨needAck, ⟨hp, -⟩ | ⟨seq, msg, -, -, hp, -⟩⟩ := receivePacket_cases l pkt
    · rw [LinkOp.step, hp]
      exact (h.takeAck pkt needAck).mono (Nat.le_succ n)
    · rw [LinkOp.step, hp]
      exact (h.takeAck pkt needAck).takeFrame seq msg

/-- No window computation of the next call leaves the 64-bit range. -/
structure InRange (l : ControlLink) : Prop where
  sendLimit : l.peerAck.toNat + 32 < 2 ^ 64
  recvLimit : l.recvNext.toNat + 32 < 2 ^ 64
  nextSeq : l.nextSeq.toNat + 1 < 2 ^ 64

/-- Every due frame the peer has room for is offered, unless its attempts are
used up and the link says it is dead. -/
def Offers (C : Codec CtlPacket) (l : ControlLink) : Prop :=
  ∀ nowMs, ∀ p ∈ l.pending, p.nextSendMs ≤ nowMs → p.seq.toNat < l.peerAck.toNat + 32 →
    encode C (l.framePacket p) ∈ (l.poll C nowMs).2 ∨ (l.poll C nowMs).1.isDead = true

theorem pollScan_offers {limit nowMs : UInt64} (datagram : Pending → Bytes) {ps : List Pending}
    (hasc : ps.Pairwise fun p q => p.seq < q.seq) {p : Pending} (hp : p ∈ ps)
    (hlim : p.seq < limit) (hdue : p.nextSendMs ≤ nowMs) :
    datagram p ∈ (pollScan limit nowMs datagram ps).2.1 ∨
      (pollScan limit nowMs datagram ps).2.2 = true := by
  induction ps with
  | nil => cases hp
  | cons q ps ih =>
    obtain ⟨hq, hasc⟩ := List.pairwise_cons.mp hasc
    have hopen : ¬limit ≤ q.seq := by
      rw [UInt64.not_le]
      rcases List.mem_cons.mp hp with rfl | hp
      · exact hlim
      · exact UInt64.lt_trans (hq p hp) hlim
    simp only [pollScan, if_neg hopen]
    rcases List.mem_cons.mp hp with rfl | hp
    · rw [if_neg (UInt64.not_lt.mpr hdue)]
      split_ifs
      · exact .inr rfl
      · exact .inl List.mem_cons_self
    · have hrec := ih hasc hp
      split_ifs
      · exact hrec
      · exact .inr rfl
      · exact hrec.imp_left fun h => List.mem_cons_of_mem _ h

theorem Within.offers {n : ℕ} {l : ControlLink} (h : Within n l)
    (hfit : l.peerAck.toNat + 32 < 2 ^ 64) : Offers C l := by
  intro nowMs p hp hdue hlt
  have hlim : p.seq < l.sendLimit := by
    rw [UInt64.lt_iff_toNat_lt, sendLimit, UInt64.toNat_add, recvWindow_toNat,
      Nat.mod_eq_of_lt hfit]
    exact hlt
  rcases pollScan_offers (fun p => encode C (l.framePacket p)) h.ascending hp hlim hdue
    with hout | hdead
  · refine .inl ?_
    simp only [ControlLink.poll]
    rw [if_neg]
    · exact hout
    · simp only [Bool.and_eq_true, List.isEmpty_iff, not_and]
      intro _ hnil
      rw [hnil] at hout
      cases hout
  · refine .inr ?_
    simp only [isDead, ControlLink.poll, hdead, Bool.or_true]

theorem poll_closed {l : ControlLink} {p : Pending} {ps : List Pending} (hp : l.pending = p :: ps)
    (hclosed : l.sendLimit ≤ p.seq) (hquiet : l.needAck = false) (nowMs : UInt64) :
    l.poll C nowMs = (l, []) := by
  have hscan : pollScan l.sendLimit nowMs (fun p => encode C (l.framePacket p)) l.pending =
      (l.pending, [], false) := by
    rw [hp, pollScan, if_pos hclosed]
  simp only [ControlLink.poll, hscan, hquiet, Bool.false_and, Bool.or_false, Bool.false_eq_true,
    if_false]
  rw [← hquiet]

end ControlLink

section
variable {C : Codec CtlPacket}

/-- The conclusion of both halves of flow control: an honest peer's frames always
fit, and nothing a peer sends makes the buffer outgrow the window. -/
theorem window_agreement (hC : C.Lawful) :
    (∀ s, Reachable (Pair.Step C) Pair.init s → s.accepted.length + 32 < 2 ^ 64 →
      ∀ d ∈ s.toB, ∀ pkt seq msg, d = encode C pkt → pkt.frame = some (seq, msg) →
        seq < s.b.recvNext + recvWindow) ∧
    ∀ ops : List LinkOp, ∀ l, l = run (LinkOp.step C) ControlLink.new ops →
      (∀ k : UInt64, k ∈ l.outOfOrder →
        l.recvNext.toNat < k.toNat ∧ k.toNat < l.recvNext.toNat + 32) ∧
      l.buffered ≤ 31 ∧
      ∀ i < 32, l.ackBits.toNat.testBit i = true ↔
        ∃ k : UInt64, k ∈ l.outOfOrder ∧ k.toNat = l.recvNext.toNat + 1 + i := by
  constructor
  · intro s hs hfit d hd pkt seq msg hpkt hf
    have hinv := Pair.reachable_inv hC hs (by omega)
    obtain ⟨pkt', hpkt', hok⟩ := hinv.frames d hd
    have heq : pkt = pkt' := by
      have htail := (List.cons.inj (hpkt.symm.trans hpkt')).2
      have hde := hC.de_ser pkt
      rw [htail, hC.de_ser] at hde
      exact ((Prod.mk.inj (Option.some.inj hde)).1).symm
    subst heq
    have hlt := (hok seq msg hf).2
    have hle : s.b.recvNext.toNat ≤ s.accepted.length := by
      rw [← hinv.received]
      exact hinv.isPrefix.length_le
    rw [UInt64.lt_iff_toNat_lt, UInt64.toNat_add, recvWindow_toNat]
    omega
  · rintro ops l rfl
    have hw := windowed_run (C := C) ops
    exact ⟨hw, size_le_of_windowed hw, fun i hi => ackBits_testBit hw hi⟩

theorem window_agreement_exchange : ∃ s, Reachable (Pair.Step Postcard.ctlPacket) Pair.init s ∧
    ∃ d ∈ s.toB, ∃ pkt, d = encode Postcard.ctlPacket pkt ∧
      ∀ seq msg, pkt.frame = some (seq, msg) → seq < s.b.recvNext + recvWindow := by
  obtain ⟨s, hs, hacc, -, hsent⟩ := Pair.exchange_reachable
  have hfit : s.accepted.length + 32 < 2 ^ 64 := by rw [hacc]; decide
  obtain ⟨d, hd⟩ := List.length_eq_one_iff.mp hsent
  have hmem : d ∈ s.toB := hd ▸ List.mem_singleton.mpr rfl
  obtain ⟨pkt, hpkt, -⟩ := (Pair.reachable_inv Postcard.ctlPacket_lawful hs (by omega)).frames d hmem
  exact ⟨s, hs, d, hmem, pkt, hpkt, fun seq msg hf =>
    (window_agreement Postcard.ctlPacket_lawful).1 s hs hfit d hmem pkt seq msg hpkt hf⟩

theorem inRange_iff {n : ℕ} {l : ControlLink} (h : Within n l) (hn : n + 32 < 2 ^ 64) :
    l.InRange ∧ l.Offers C ↔ l.peerAck.toNat + 32 < 2 ^ 64 := by
  constructor
  · exact fun hr => hr.1.sendLimit
  · intro hfit
    have hsent := h.sent
    have htaken := h.taken
    exact ⟨⟨hfit, by omega, by omega⟩, h.offers hfit⟩

theorem peerAck_step (l : ControlLink) (op : LinkOp) :
    (op.step C l).peerAck = match op with
      | .packet pkt => max l.peerAck pkt.ack
      | _ => l.peerAck := by
  cases op with
  | send msg =>
    rcases send_cases l msg with h | h <;> simp only [LinkOp.step, h]
  | poll nowMs => rfl
  | packet pkt => exact (Pair.receivePacket_sender l pkt).2.2

/-- Over a run short enough for the counters, the window arithmetic is sound and
every open frame is offered in every state exactly when each ack leaves room for
a window above it. -/
theorem sound_iff_acks_fit {n : ℕ} {l : ControlLink} (h : Within n l) {ops : List LinkOp}
    (hn : n + ops.length + 32 < 2 ^ 64) (hfit : l.peerAck.toNat + 32 < 2 ^ 64) :
    Throughout (LinkOp.step C) (fun l => l.InRange ∧ l.Offers C) l ops ↔
      ∀ pkt, .packet pkt ∈ ops → pkt.ack.toNat + 32 < 2 ^ 64 := by
  induction ops generalizing n l with
  | nil =>
    simp only [Throughout, List.not_mem_nil, false_implies, implies_true, iff_true]
    exact (inRange_iff h (by simpa using hn)).mpr hfit
  | cons op ops ih =>
    simp only [List.length_cons] at hn
    have hnow : l.InRange ∧ l.Offers C := (inRange_iff h (by omega)).mpr hfit
    have hnext : Within (n + 1) (op.step C l) := h.step (by omega) op
    by_cases hop : (op.step C l).peerAck.toNat + 32 < 2 ^ 64
    · rw [Throughout, ih hnext (by omega) hop]
      simp only [hnow, true_and, List.mem_cons]
      constructor
      · rintro hall pkt (rfl | hp)
        · rw [peerAck_step, toNat_max] at hop
          omega
        · exact hall pkt hp
      · exact fun hall pkt hp => hall pkt (.inr hp)
    · constructor
      · intro ht
        exact absurd (Throughout.head ht.2).1.sendLimit hop
      · intro hall
        rw [peerAck_step] at hop
        cases op with
        | packet pkt =>
          have := hall pkt List.mem_cons_self
          rw [toNat_max] at hop
          omega
        | _ => exact absurd hfit hop

end

theorem link_sound_iff (C : Codec CtlPacket) {ops : List LinkOp}
    (hn : ops.length + 32 < 2 ^ 64) :
    Throughout (LinkOp.step C) (fun l => l.InRange ∧ l.Offers C) ControlLink.new ops ↔
      ∀ pkt, .packet pkt ∈ ops → pkt.ack.toNat + 32 < 2 ^ 64 :=
  sound_iff_acks_fit new_within (by omega) (by decide)

theorem link_sound_iff_exchange :
    Throughout (LinkOp.step Postcard.ctlPacket) (fun l => l.InRange ∧ l.Offers Postcard.ctlPacket)
      ControlLink.new
      [.send (.clickEnable true), .poll 0, .packet { ack := 1, ackBits := 0, frame := none }] := by
  refine (link_sound_iff Postcard.ctlPacket (by decide)).mpr ?_
  intro pkt hp
  simp only [List.mem_cons, reduceCtorEq, LinkOp.packet.injEq, List.not_mem_nil, or_false,
    false_or] at hp
  subst hp
  decide

theorem run_poll_closed {C : Codec CtlPacket} {l : ControlLink} {p : Pending} {ps : List Pending}
    (hp : l.pending = p :: ps) (hclosed : l.sendLimit ≤ p.seq) (hquiet : l.needAck = false)
    (times : List UInt64) : run (LinkOp.step C) l (times.map .poll) = l := by
  induction times with
  | nil => rfl
  | cons t times ih =>
    rw [List.map_cons, run_cons, LinkOp.step, poll_closed hp hclosed hquiet]
    exact ih

/-- An ack 32 short of the end of the range, then a message. -/
def strayAck : List LinkOp :=
  [.packet { ack := 0xFFFFFFFFFFFFFFE0, ackBits := 0, frame := none }, .send (.clickEnable true)]

def wedged : ControlLink :=
  { ControlLink.new with
    nextSeq := 1
    pending := [{ seq := 0, msg := .clickEnable true, nextSendMs := 0, sends := 0 }]
    peerAck := 0xFFFFFFFFFFFFFFE0 }

/-- The frame is the first one of the link and the peer is said to have room for
it, yet no later poll offers it, and the link never reports itself dead. -/
theorem stray_ack_wedges :
    ¬Throughout (LinkOp.step Postcard.ctlPacket)
      (fun l => l.InRange ∧ l.Offers Postcard.ctlPacket) ControlLink.new strayAck ∧
    run (LinkOp.step Postcard.ctlPacket) ControlLink.new strayAck = wedged ∧
    (∃ p ∈ wedged.pending, p.nextSendMs = 0 ∧ p.seq.toNat < wedged.peerAck.toNat + 32) ∧
    ∀ times : List UInt64, ∀ nowMs,
      ((run (LinkOp.step Postcard.ctlPacket) wedged (times.map .poll)).poll
        Postcard.ctlPacket nowMs).2 = [] ∧
      (run (LinkOp.step Postcard.ctlPacket) wedged (times.map .poll)).isDead = false := by
  have hrun : run (LinkOp.step Postcard.ctlPacket) ControlLink.new strayAck = wedged := rfl
  have hclosed : wedged.sendLimit ≤ 0 := by decide
  refine ⟨?_, hrun, ⟨_, List.mem_cons_self, rfl, by decide⟩, ?_⟩
  · intro ht
    have hlast := ht.last.1.sendLimit
    rw [hrun] at hlast
    exact absurd hlast (by decide)
  · intro times nowMs
    rw [run_poll_closed rfl hclosed rfl, poll_closed rfl hclosed rfl]
    exact ⟨rfl, rfl⟩

end JamStream.Protocol
