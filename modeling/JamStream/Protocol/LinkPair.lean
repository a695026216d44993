import JamStream.Protocol.ControlCodec
import JamStream.Protocol.LinkWindow

/-! Two honest links over a network that drops, duplicates, delays and reorders.
The network is the list of every datagram ever emitted, and an end may be handed
any entry of it at any time, any number of times or never. -/

namespace JamStream.Protocol
open Foundations OrderedMap Runs
open Std (ExtTreeMap)

namespace ControlLink

def Has (l : ControlLink) (i : ℕ) : Prop :=
  i < l.recvNext.toNat ∨ ∃ k : UInt64, k ∈ l.outOfOrder ∧ k.toNat = i

theorem takeFrame_recvNext_le {l : ControlLink} (hw : l.Windowed) (seq : UInt64)
    (msg : ControlMsg) : l.recvNext.toNat ≤ (l.takeFrame seq msg).1.recvNext.toNat := by
  by_cases h : l.inWindow seq = true ∧ seq ∉ l.outOfOrder
  · have hlen := (takeFrame_spec msg hw h.1 h.2).1
    omega
  · rw [takeFrame_of_not h]

theorem Has.takeFrame {l : ControlLink} (hw : l.Windowed) {i : ℕ} (h : l.Has i) (seq : UInt64)
    (msg : ControlMsg) : (l.takeFrame seq msg).1.Has i := by
  by_cases hin : l.inWindow seq = true ∧ seq ∉ l.outOfOrder
  · obtain ⟨hlen, hkeep, -, -⟩ := takeFrame_spec msg hw hin.1 hin.2
    rcases h with hlt | ⟨k, hk, rfl⟩
    · exact .inl (by omega)
    · by_cases hlt : k.toNat < (l.takeFrame seq msg).1.recvNext.toNat
      · exact .inl hlt
      · obtain ⟨v, hv⟩ := (mem_iff _ k).mp hk
        have hne : seq ≠ k := fun e => hin.2 (e ▸ hk)
        have hnew := hkeep k
        rw [if_neg hlt, if_neg hne, hv] at hnew
        exact .inr ⟨k, mem_of_getElem? hnew, rfl⟩
  · rw [takeFrame_of_not hin]
    exact h

theorem has_of_covers {l : ControlLink} {pkt : CtlPacket} (hack : pkt.ack = l.recvNext)
    (hbits : pkt.ackBits = l.ackBits) {seq : UInt64} (h : pkt.covers seq = true) :
    l.Has seq.toNat := by
  rw [CtlPacket.covers_iff, hack, hbits] at h
  rcases h with h | ⟨i, hi, hseq, hbit⟩
  · exact .inl h
  · refine .inr ⟨_, (l.testBit_ackBits hi).mp hbit, ?_⟩
    have := seq.toNat_lt
    rw [toNat_bitSeq]
    omega

theorem pollScan_queue (limit nowMs : UInt64) (datagram : Pending → Bytes) (ps : List Pending) :
    (pollScan limit nowMs datagram ps).1.map (fun p => (p.seq, p.msg)) =
      ps.map fun p => (p.seq, p.msg) := by
  induction ps with
  | nil => rfl
  | cons p ps ih =>
    simp only [pollScan]
    split_ifs <;> simp only [List.map_cons, ih]

theorem mem_pollScan {limit nowMs : UInt64} {datagram : Pending → Bytes} {ps : List Pending}
    {d : Bytes} (h : d ∈ (pollScan limit nowMs datagram ps).2.1) :
    ∃ p ∈ ps, p.seq < limit ∧ d = datagram p := by
  induction ps with
  | nil => simp [pollScan] at h
  | cons p ps ih =>
    have hrest : d ∈ (pollScan limit nowMs datagram ps).2.1 →
        ∃ q ∈ p :: ps, q.seq < limit ∧ d = datagram q := by
      intro h
      obtain ⟨q, hq, hlt, hd⟩ := ih h
      exact ⟨q, List.mem_cons_of_mem p hq, hlt, hd⟩
    simp only [pollScan] at h
    split_ifs at h with hlim hnow hsends
    · simp at h
    · exact hrest h
    · exact hrest h
    · rcases List.mem_cons.mp h with rfl | h
      · exact ⟨p, List.mem_cons_self, by simpa using hlim, rfl⟩
      · exact hrest h

end ControlLink

structure Pair where
  a : ControlLink
  b : ControlLink
  toB : List Bytes
  toA : List Bytes
  accepted : List ControlMsg
  delivered : List ControlMsg

namespace Pair
open ControlLink
variable (C : Codec CtlPacket)

def init : Pair :=
  { a := .new, b := .new, toB := [], toA := [], accepted := [], delivered := [] }

inductive Step : Pair → Pair → Prop
  | sendA {s : Pair} {msg a} (h : s.a.send msg = .ok a) :
    Step s { s with a, accepted := s.accepted ++ [msg] }
  | sendB {s : Pair} {msg b} (h : s.b.send msg = .ok b) : Step s { s with b }
  | pollA (s : Pair) (nowMs) :
    Step s { s with a := (s.a.poll C nowMs).1, toB := s.toB ++ (s.a.poll C nowMs).2 }
  | pollB (s : Pair) (nowMs) :
    Step s { s with b := (s.b.poll C nowMs).1, toA := s.toA ++ (s.b.poll C nowMs).2 }
  | receiveA {s : Pair} {d} (h : d ∈ s.toA) : Step s { s with a := (s.a.receive C d).1 }
  | receiveB {s : Pair} {d} (h : d ∈ s.toB) :
    Step s { s with
      b := (s.b.receive C d).1
      delivered := s.delivered ++ (s.b.receive C d).2.toOption.getD [] }

/-- A frame on its way to `b`: a message `a` accepted under that number, inside
the window `b` has by the time it arrives. -/
def FrameOk (s : Pair) (seq : UInt64) (msg : ControlMsg) : Prop :=
  s.accepted[seq.toNat]? = some msg ∧ seq.toNat < s.b.recvNext.toNat + 32

/-- What `b` has said it received, however long ago it said so. -/
def AckOk (s : Pair) (pkt : CtlPacket) : Prop :=
  pkt.ack.toNat ≤ s.b.recvNext.toNat ∧ ∀ seq, pkt.covers seq = true → s.b.Has seq.toNat

structure SenderInv (s : Pair) : Prop where
  counted : s.a.nextSeq.toNat = s.accepted.length % 2 ^ 64
  queued : ∀ p ∈ s.a.pending, s.accepted[p.seq.toNat]? = some p.msg
  acked : s.a.peerAck.toNat ≤ s.b.recvNext.toNat
  covered : ∀ i < s.accepted.length, s.b.Has i ∨ ∃ p ∈ s.a.pending, p.seq.toNat = i

structure ReceiverInv (s : Pair) : Prop where
  windowed : s.b.Windowed
  received : s.delivered.length = s.b.recvNext.toNat
  inOrder : ∀ (i : ℕ) msg, s.delivered[i]? = some msg → s.accepted[i]? = some msg
  buffered : ∀ (k : UInt64) msg, s.b.outOfOrder[k]? = some msg →
    s.accepted[k.toNat]? = some msg

structure NetworkInv (s : Pair) : Prop where
  frames : ∀ d ∈ s.toB, ∃ pkt, d = encode C pkt ∧
    ∀ seq msg, pkt.frame = some (seq, msg) → s.FrameOk seq msg
  acks : ∀ d ∈ s.toA, ∃ pkt, d = encode C pkt ∧ s.AckOk pkt

structure Inv (s : Pair) : Prop extends SenderInv s, ReceiverInv s, NetworkInv C s

variable {C}

theorem init_inv : Inv C init where
  counted := rfl
  queued := by simp [init, ControlLink.new]
  acked := le_rfl
  covered := by simp [init]
  windowed := by intro k hk; simp [init, ControlLink.new] at hk
  received := rfl
  inOrder := by simp [init]
  buffered := by simp [init, ControlLink.new]
  frames := by simp [init]
  acks := by simp [init]

theorem receive_encode (hC : C.Lawful) (l : ControlLink) (pkt : CtlPacket) :
    l.receive C (encode C pkt) = l.receivePacket pkt := by
  simp only [ControlLink.receive, encode, if_true, hC.de_ser]

theorem getElem?_append_of_some {α : Type} {xs : List α} {i : ℕ} {x : α} (h : xs[i]? = some x)
    (ys : List α) : (xs ++ ys)[i]? = some x := by
  rw [List.getElem?_append_left (List.getElem?_eq_some_iff.mp h).1]
  exact h

theorem Inv.sendA {s : Pair} (h : Inv C s) {msg : ControlMsg} {a : ControlLink}
    (ha : s.a.send msg = .ok a) (hfit : s.accepted.length + 1 ≤ 2 ^ 64) :
    Inv C { s with a, accepted := s.accepted ++ [msg] } := by
  obtain ⟨-, -, rfl⟩ := send_ok ha
  have hseq : s.a.nextSeq.toNat = s.accepted.length := by
    rw [h.counted]
    exact Nat.mod_eq_of_lt hfit
  exact {
    h with
    counted := by
      simp only [UInt64.toNat_add, UInt64.toNat_one, hseq, List.length_append,
        List.length_singleton]
    queued := by
      intro p hp
      rcases List.mem_append.mp hp with hp | hp
      · exact getElem?_append_of_some (h.queued p hp) _
      · rw [List.mem_singleton.mp hp]
        simp [hseq]
    covered := by
      intro i hi
      simp only [List.length_append, List.length_singleton] at hi
      by_cases hlt : i < s.accepted.length
      · rcases h.covered i hlt with hhas | ⟨p, hp, rfl⟩
        · exact .inl hhas
        · exact .inr ⟨p, List.mem_append_left _ hp, rfl⟩
      · refine .inr ⟨_, List.mem_append_right _ (List.mem_singleton.mpr rfl), ?_⟩
        simp only [hseq]
        omega
    inOrder := fun i m hm => getElem?_append_of_some (h.inOrder i m hm) _
    buffered := fun k m hm => getElem?_append_of_some (h.buffered k m hm) _
    frames := by
      intro d hd
      obtain ⟨pkt, hpkt, hok⟩ := h.frames d hd
      refine ⟨pkt, hpkt, fun seq m hf => ?_⟩
      exact ⟨getElem?_append_of_some (hok seq m hf).1 _, (hok seq m hf).2⟩ }

theorem Inv.sendB {s : Pair} (h : Inv C s) {msg : ControlMsg} {b : ControlLink}
    (hb : s.b.send msg = .ok b) : Inv C { s with b } := by
  obtain ⟨-, -, rfl⟩ := send_ok hb
  exact { h with }

/-- A frame leaves `a` below its idea of `b`'s window, which never runs ahead of
the window itself; where the limit wraps it only falls. -/
theorem Inv.pollA {s : Pair} (h : Inv C s) (nowMs : UInt64) :
    Inv C { s with a := (s.a.poll C nowMs).1, toB := s.toB ++ (s.a.poll C nowMs).2 } := by
  have hmap := pollScan_queue s.a.sendLimit nowMs (fun p => encode C (s.a.framePacket p))
    s.a.pending
  exact {
    h with
    queued := by
      intro p hp
      have hmem : (p.seq, p.msg) ∈ s.a.pending.map fun p => (p.seq, p.msg) := by
        rw [← hmap]
        exact List.mem_map.mpr ⟨p, hp, rfl⟩
      obtain ⟨q, hq, heq⟩ := List.mem_map.mp hmem
      obtain ⟨hseq, hmsg⟩ := Prod.mk.inj heq
      rw [← hseq, ← hmsg]
      exact h.queued q hq
    covered := by
      intro i hi
      rcases h.covered i hi with hhas | ⟨p, hp, rfl⟩
      · exact .inl hhas
      · have hmem : (p.seq, p.msg) ∈ (s.a.poll C nowMs).1.pending.map
            fun p => (p.seq, p.msg) := by
          simp only [poll, hmap]
          exact List.mem_map.mpr ⟨p, hp, rfl⟩
        obtain ⟨q, hq, heq⟩ := List.mem_map.mp hmem
        exact .inr ⟨q, hq, congrArg UInt64.toNat (Prod.mk.inj heq).1⟩
    frames := by
      intro d hd
      rcases List.mem_append.mp hd with hd | hd
      · exact h.frames d hd
      · rcases mem_poll C s.a nowMs hd with rfl | hd
        · exact ⟨_, rfl, by simp⟩
        · obtain ⟨p, hp, hlt, rfl⟩ := mem_pollScan hd
          refine ⟨_, rfl, fun seq msg hf => ?_⟩
          simp only [framePacket, Option.some.injEq, Prod.mk.injEq] at hf
          obtain ⟨rfl, rfl⟩ := hf
          have hacked := h.acked
          have hlim : s.a.sendLimit.toNat ≤ s.a.peerAck.toNat + 32 := by
            simp only [sendLimit, UInt64.toNat_add, recvWindow_toNat]
            omega
          rw [UInt64.lt_iff_toNat_lt] at hlt
          refine ⟨h.queued p hp, ?_⟩
          simp only
          omega }

theorem Inv.pollB {s : Pair} (h : Inv C s) (nowMs : UInt64) :
    Inv C { s with b := (s.b.poll C nowMs).1, toA := s.toA ++ (s.b.poll C nowMs).2 } := by
  have hack : ∀ frame, AckOk s { ack := s.b.recvNext, ackBits := s.b.ackBits, frame } :=
    fun _ => ⟨le_rfl, fun _ hc => has_of_covers rfl rfl hc⟩
  exact {
    h with
    acks := by
      intro d hd
      rcases List.mem_append.mp hd with hd | hd
      · exact h.acks d hd
      · rcases mem_poll C s.b nowMs hd with rfl | hd
        · exact ⟨_, rfl, hack none⟩
        · obtain ⟨p, -, -, rfl⟩ := mem_pollScan hd
          exact ⟨_, rfl, hack _⟩ }

theorem receivePacket_sender (l : ControlLink) (pkt : CtlPacket) :
    (l.receivePacket pkt).1.nextSeq = l.nextSeq ∧
    (l.receivePacket pkt).1.pending = (l.takeAck pkt).pending ∧
    (l.receivePacket pkt).1.peerAck = max l.peerAck pkt.ack := by
  obtain ⟨needAck, ⟨h, -⟩ | ⟨seq, msg, -, -, h, -⟩⟩ := receivePacket_cases l pkt
  · rw [h]
    exact ⟨rfl, rfl, rfl⟩
  · rw [h, takeFrame_fst]
    exact ⟨rfl, rfl, rfl⟩

theorem Inv.receiveA {s : Pair} (h : Inv C s) (hC : C.Lawful) {d : Bytes} (hd : d ∈ s.toA) :
    Inv C { s with a := (s.a.receive C d).1 } := by
  obtain ⟨pkt, rfl, hack, hcov⟩ := h.acks d hd
  obtain ⟨hnext, hpend, hpeer⟩ := receivePacket_sender s.a pkt
  rw [receive_encode hC]
  exact {
    h with
    counted := by simpa only [hnext] using h.counted
    queued := by
      intro p hp
      rw [hpend] at hp
      exact h.queued p (List.mem_filter.mp hp).1
    acked := by
      have hold := h.acked
      simp only [hpeer, toNat_max]
      omega
    covered := by
      intro i hi
      rcases h.covered i hi with hhas | ⟨p, hp, rfl⟩
      · exact .inl hhas
      · by_cases hc : pkt.covers p.seq = true
        · exact .inl (hcov p.seq hc)
        · refine .inr ⟨p, ?_, rfl⟩
          simp only [hpend]
          exact List.mem_filter.mpr ⟨hp, by simpa using hc⟩ }

theorem Inv.advance {s : Pair} (h : Inv C s) {b : ControlLink} {got : List ControlMsg}
    (hle : s.b.recvNext.toNat ≤ b.recvNext.toNat) (hhas : ∀ i, s.b.Has i → b.Has i)
    (hr : ReceiverInv { s with b, delivered := s.delivered ++ got }) :
    Inv C { s with b, delivered := s.delivered ++ got } where
  toReceiverInv := hr
  counted := h.counted
  queued := h.queued
  acked := h.acked.trans hle
  covered := by
    intro i hi
    exact (h.covered i hi).imp_left (hhas i)
  frames := by
    intro d hd
    obtain ⟨pkt, hpkt, hok⟩ := h.frames d hd
    refine ⟨pkt, hpkt, fun seq msg hf => ⟨(hok seq msg hf).1, ?_⟩⟩
    exact (hok seq msg hf).2.trans_le (Nat.add_le_add_right hle 32)
  acks := by
    intro d hd
    obtain ⟨pkt, hpkt, hack, hcov⟩ := h.acks d hd
    exact ⟨pkt, hpkt, hack.trans hle, fun seq hc => hhas _ (hcov seq hc)⟩

theorem ReceiverInv.takeFrame {s : Pair} (h : ReceiverInv s) {l : ControlLink}
    (hl : l.recvNext = s.b.recvNext ∧ l.outOfOrder = s.b.outOfOrder) {seq : UInt64}
    {msg : ControlMsg} (hmsg : s.accepted[seq.toNat]? = some msg) :
    ReceiverInv { s with
      b := (l.takeFrame seq msg).1
      delivered := s.delivered ++ (l.takeFrame seq msg).2 } := by
  have hw : l.Windowed := by
    intro k hk
    rw [hl.2] at hk
    rw [hl.1]
    exact h.windowed k hk
  by_cases hin : l.inWindow seq = true ∧ seq ∉ l.outOfOrder
  · obtain ⟨hlen, hkeep, -, hgot⟩ := takeFrame_spec msg hw hin.1 hin.2
    have hbuf : ∀ (k : UInt64) m, (if seq = k then some msg else l.outOfOrder[k]?) = some m →
        s.accepted[k.toNat]? = some m := by
      intro k m hm
      split_ifs at hm with hs
      · rw [← hs, ← hm, hmsg]
      · rw [hl.2] at hm
        exact h.buffered k m hm
    exact {
      windowed := hw.takeFrame seq msg
      received := by
        simp only [List.length_append, h.received, hlen, hl.1]
      inOrder := by
        intro i m hi
        rcases lt_or_ge i s.delivered.length with hlt | hge
        · rw [List.getElem?_append_left hlt] at hi
          exact h.inOrder i m hi
        · rw [List.getElem?_append_right hge] at hi
          obtain ⟨k, hk, hm⟩ := hgot _ m hi
          have hki : k.toNat = i := by
            rw [hk, hl.1, ← h.received]
            omega
          exact hki ▸ hbuf k m hm
      buffered := by
        intro k m hm
        rw [hkeep k] at hm
        split_ifs at hm with hlt hs
        · exact hbuf k m (by rw [if_pos hs, hm])
        · exact hbuf k m (by rw [if_neg hs, hm]) }
  · rw [takeFrame_of_not hin]
    exact {
      windowed := hw
      received := by simpa only [List.append_nil, hl.1] using h.received
      inOrder := by simpa only [List.append_nil] using h.inOrder
      buffered := by simpa only [hl.2] using h.buffered }

theorem Inv.receiveB {s : Pair} (h : Inv C s) (hC : C.Lawful) {d : Bytes} (hd : d ∈ s.toB) :
    Inv C { s with
      b := (s.b.receive C d).1
      delivered := s.delivered ++ (s.b.receive C d).2.toOption.getD [] } := by
  obtain ⟨pkt, rfl, hok⟩ := h.frames d hd
  rw [receive_encode hC]
  obtain ⟨needAck, ⟨hb, hgot⟩ | ⟨seq, msg, hf, -, hb, hgot⟩⟩ := receivePacket_cases s.b pkt
  · rw [hb, hgot]
    refine h.advance le_rfl (fun i hi => hi) ?_
    rw [List.append_nil]
    exact {
      windowed := h.windowed
      received := h.received
      inOrder := h.inOrder
      buffered := h.buffered }
  · have hw : ({ s.b.takeAck pkt with needAck } : ControlLink).Windowed := h.windowed
    rw [hb, hgot]
    exact h.advance (takeFrame_recvNext_le hw seq msg) (fun i hi => Has.takeFrame hw hi seq msg)
      (h.toReceiverInv.takeFrame (l := { s.b.takeAck pkt with needAck }) ⟨rfl, rfl⟩
        (hok seq msg hf).1)

theorem Inv.step {s t : Pair} (hC : C.Lawful) (h : Inv C s) (hst : Step C s t)
    (hfit : t.accepted.length ≤ 2 ^ 64) : Inv C t := by
  cases hst with
  | sendA ha => exact h.sendA ha (by simpa using hfit)
  | sendB hb => exact h.sendB hb
  | pollA nowMs => exact h.pollA nowMs
  | pollB nowMs => exact h.pollB nowMs
  | receiveA hd => exact h.receiveA hC hd
  | receiveB hd => exact h.receiveB hC hd

theorem Step.accepted_le {s t : Pair} (hst : Step C s t) :
    s.accepted.length ≤ t.accepted.length := by
  cases hst with
  | sendA => simp
  | _ => exact le_rfl

theorem reachable_inv {s : Pair} (hC : C.Lawful) (h : Reachable (Step C) init s)
    (hfit : s.accepted.length ≤ 2 ^ 64) : Inv C s :=
  Reachable.bounded_invariant (n := fun s : Pair => s.accepted.length)
    (fun _ _ hst => hst.accepted_le) (fun _ _ hi hst => hi.step hC hst) init_inv h hfit

/-- The buffer never holds the frame `b` waits for, so with nothing queued there
is no hole below what has been received. -/
theorem Inv.delivered_all {s : Pair} (h : Inv C s) (hempty : s.a.pending = []) :
    s.delivered = s.accepted := by
  have hcov : ∀ i < s.accepted.length, s.b.Has i := by
    intro i hi
    rcases h.covered i hi with hhas | ⟨p, hp, -⟩
    · exact hhas
    · simp [hempty] at hp
  have hlen : s.accepted.length ≤ s.delivered.length := by
    by_contra hlt
    rcases hcov s.delivered.length (by omega) with hh | ⟨k, hk, hkn⟩
    · have := h.received
      omega
    · have := (h.windowed k hk).1
      have := h.received
      omega
  apply List.ext_getElem?
  intro i
  cases hi : s.delivered[i]? with
  | some msg => exact (h.inOrder i msg hi).symm
  | none =>
    rw [List.getElem?_eq_none_iff] at hi
    exact (List.getElem?_eq_none_iff.mpr (hlen.trans hi)).symm

theorem Inv.isPrefix {s : Pair} (h : Inv C s) : s.delivered <+: s.accepted := by
  rw [List.prefix_iff_getElem?]
  intro i hi
  exact h.inOrder i _ (List.getElem?_eq_getElem hi)

theorem delivery {s : Pair} (hC : C.Lawful) (h : Reachable (Step C) init s)
    (hfit : s.accepted.length ≤ 2 ^ 64) :
    s.delivered <+: s.accepted ∧
    (∀ i msg, s.accepted[i]? = some msg → s.delivered[i]? = some msg ∨
      (∃ k : UInt64, k.toNat = i ∧ s.b.outOfOrder[k]? = some msg) ∨
      ∃ p ∈ s.a.pending, p.seq.toNat = i ∧ p.msg = msg) ∧
    (s.a.pending = [] → s.delivered = s.accepted) := by
  have hinv := reachable_inv hC h hfit
  refine ⟨hinv.isPrefix, ?_, hinv.delivered_all⟩
  intro i msg hi
  rcases hinv.covered i (List.getElem?_eq_some_iff.mp hi).1 with (hlt | ⟨k, hk, rfl⟩) | ⟨p, hp, rfl⟩
  · have hlt' : i < s.delivered.length := hinv.received ▸ hlt
    have hd := List.getElem?_eq_getElem hlt'
    have hacc := hinv.inOrder i _ hd
    rw [hi] at hacc
    exact .inl (hd.trans hacc.symm)
  · obtain ⟨v, hv⟩ := (mem_iff _ k).mp hk
    have hacc := hinv.buffered k v hv
    rw [hi] at hacc
    exact .inr (.inl ⟨k, rfl, hv.trans hacc.symm⟩)
  · have hacc := hinv.queued p hp
    rw [hi] at hacc
    exact .inr (.inr ⟨p, hp, rfl, (Option.some.inj hacc).symm⟩)

theorem exchange_reachable : ∃ s, Reachable (Step Postcard.ctlPacket) init s ∧
    s.accepted = [.clickEnable true] ∧ s.a.pending.length = 1 ∧ s.toB.length = 1 := by
  have hsend : ControlLink.new.send (.clickEnable true) = .ok { ControlLink.new with
      nextSeq := 1
      pending := [{ seq := 0, msg := .clickEnable true, nextSendMs := 0, sends := 0 }] } := rfl
  have h1 : Reachable (Step Postcard.ctlPacket) init _ := .single (.sendA hsend)
  have h2 := h1.tail (.pollA _ 0)
  exact ⟨_, h2.tail (.receiveB (List.mem_singleton.mpr rfl)), rfl, rfl, rfl⟩

def bothSent : Pair :=
  let first := (ControlLink.new.send (.clickEnable true)).toOption.getD .new
  let polled := first.poll Postcard.ctlPacket 0
  let second := (polled.1.send (.clickEnable false)).toOption.getD .new
  let again := second.poll Postcard.ctlPacket 1
  { init with
    a := again.1
    toB := polled.2 ++ again.2
    accepted := [.clickEnable true, .clickEnable false] }

/-- The second arrives before the first, the first twice, and their acks get through but for
the earliest. -/
def swapped : Pair :=
  let late := bothSent.toB.getLastD []
  let early := bothSent.toB.headD []
  let one := bothSent.b.receive Postcard.ctlPacket late
  let lost := one.1.poll Postcard.ctlPacket 2
  let two := lost.1.receive Postcard.ctlPacket early
  let twice := two.1.receive Postcard.ctlPacket early
  let acked := twice.1.poll Postcard.ctlPacket 3
  { bothSent with
    a := (bothSent.a.receive Postcard.ctlPacket ((lost.2 ++ acked.2).getLastD [])).1
    b := acked.1
    toA := lost.2 ++ acked.2
    delivered := one.2.toOption.getD [] ++ two.2.toOption.getD [] ++ twice.2.toOption.getD [] }

theorem bothSent_reachable : Reachable (Step Postcard.ctlPacket) init bothSent := by
  have hfirst : ControlLink.new.send (.clickEnable true) =
      .ok ((ControlLink.new.send (.clickEnable true)).toOption.getD .new) := rfl
  have h1 : Reachable (Step Postcard.ctlPacket) init _ := .single (.sendA hfirst)
  have h2 := h1.tail (.pollA _ 0)
  exact (h2.tail (@Step.sendA _ _ (.clickEnable false) _ rfl)).tail (.pollA _ 1)

theorem swapped_reachable : Reachable (Step Postcard.ctlPacket) init swapped := by
  have hlate : bothSent.toB.getLastD [] ∈ bothSent.toB := by decide +kernel
  have hearly : bothSent.toB.headD [] ∈ bothSent.toB := by decide +kernel
  have h1 := bothSent_reachable.tail (.receiveB hlate)
  have h2 := h1.tail (.pollB _ 2)
  have h3 := h2.tail (.receiveB hearly)
  have h4 := h3.tail (.receiveB hearly)
  have h5 := h4.tail (.pollB _ 3)
  have hacked : swapped.toA.getLastD [] ∈ swapped.toA := by decide +kernel
  exact h5.tail (.receiveA hacked)

theorem delivery_exchange :
    Reachable (Step Postcard.ctlPacket) init swapped ∧
    swapped.delivered = [.clickEnable true, .clickEnable false] := by
  have hempty : swapped.a.pending.isEmpty = true := by decide +kernel
  have hall := (delivery Postcard.ctlPacket_lawful swapped_reachable (by decide +kernel)).2.2
  exact ⟨swapped_reachable, hall (List.isEmpty_iff.mp hempty)⟩

end Pair
end JamStream.Protocol
