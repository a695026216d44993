import JamStream.Foundations.Bitmask
import JamStream.Foundations.OrderedMap
import JamStream.Foundations.Runs
import JamStream.Protocol.ControlLink

/-! What one end of a link keeps whatever the other end sends: the shape of the
receive buffer, and what its acknowledgements say about it. -/

namespace JamStream.Protocol
open Foundations OrderedMap
open Std (ExtTreeMap)

@[simp] theorem recvWindow_toNat : recvWindow.toNat = 32 := rfl

theorem toNat_max (a b : UInt64) : (max a b).toNat = max a.toNat b.toNat := by
  have hif : max a b = if a ≤ b then b else a := rfl
  rw [hif]
  split_ifs with hle <;> rw [UInt64.le_iff_toNat_le] at hle <;> omega

namespace ControlLink

/-- Everything the delivery loop does: it takes the frames from `next` on, as
many as there are without a gap, and leaves the rest of the buffer alone. -/
theorem drain_spec {n : ℕ} {next : UInt64} {buf : ExtTreeMap UInt64 ControlMsg}
    (hn : buf.size ≤ n) (hlo : ∀ k : UInt64, k ∈ buf → next.toNat ≤ k.toNat)
    (hhi : ∀ k : UInt64, k ∈ buf → k.toNat + 1 < 2 ^ 64) :
    (drain n next buf).1.toNat = next.toNat + (drain n next buf).2.2.length ∧
    (∀ k : UInt64, (drain n next buf).2.1[k]? =
      if k.toNat < (drain n next buf).1.toNat then none else buf[k]?) ∧
    (drain n next buf).2.1[(drain n next buf).1]? = none ∧
    ∀ i msg, (drain n next buf).2.2[i]? = some msg →
      ∃ k : UInt64, k.toNat = next.toNat + i ∧ buf[k]? = some msg := by
  induction n generalizing next buf with
  | zero =>
    have hempty : ∀ k : UInt64, buf[k]? = none := by
      intro k
      rw [ExtTreeMap.eq_empty_iff_size_eq_zero.mpr (Nat.le_zero.mp hn)]
      exact ExtTreeMap.getElem?_empty
    simp [drain, hempty]
  | succ n ih =>
    cases hb : buf[next]? with
    | none =>
      have hbelow : ∀ k : UInt64, k.toNat < next.toNat → buf[k]? = none := by
        intro k hk
        by_contra hne
        obtain ⟨v, hv⟩ := Option.ne_none_iff_exists'.mp hne
        have := hlo k (mem_of_getElem? hv)
        omega
      simp only [drain, hb, List.length_nil, Nat.add_zero, true_and]
      refine ⟨?_, by simp⟩
      intro k
      split_ifs with hk
      · exact hbelow k hk
      · rfl
    | some msg =>
      have hmem : next ∈ buf := mem_of_getElem? hb
      have hnext : (next + 1).toNat = next.toNat + 1 := by
        have := hhi next hmem
        rw [UInt64.toNat_add]
        exact Nat.mod_eq_of_lt this
      have hsize : (buf.erase next).size ≤ n := by
        rw [ExtTreeMap.size_erase, if_pos (ExtTreeMap.contains_iff_mem.mpr hmem)]
        omega
      have hsub : ∀ k : UInt64, k ∈ buf.erase next → k ∈ buf ∧ next ≠ k := by
        intro k hk
        obtain ⟨v, hv⟩ := (mem_iff _ k).mp hk
        rw [getElem?_erase] at hv
        split_ifs at hv with hne
        exact ⟨mem_of_getElem? hv, hne⟩
      have hlo' : ∀ k : UInt64, k ∈ buf.erase next → (next + 1).toNat ≤ k.toNat := by
        intro k hk
        obtain ⟨hmk, hne⟩ := hsub k hk
        have hle := hlo k hmk
        have hne' : next.toNat ≠ k.toNat := fun h => hne (UInt64.toNat_inj.mp h)
        omega
      obtain ⟨hlen, hkeep, hstop, hgot⟩ :=
        ih hsize hlo' (fun k hk => hhi k (hsub k hk).1)
      simp only [drain, hb]
      refine ⟨by simp only [List.length_cons]; omega, ?_, hstop, ?_⟩
      · intro k
        rw [hkeep k, getElem?_erase]
        by_cases hk : next = k
        · subst hk
          have : next.toNat < (drain n (next + 1) (buf.erase next)).1.toNat := by omega
          simp [this]
        · rw [if_neg hk]
      · intro i m hi
        cases i with
        | zero => exact ⟨next, rfl, by simpa [hb] using hi⟩
        | succ i =>
          obtain ⟨k, hk, hkm⟩ := hgot i m (by simpa using hi)
          rw [getElem?_erase] at hkm
          split_ifs at hkm with hne
          exact ⟨k, by omega, hkm⟩

def Windowed (l : ControlLink) : Prop :=
  ∀ k : UInt64, k ∈ l.outOfOrder → l.recvNext.toNat < k.toNat ∧ k.toNat < l.recvNext.toNat + 32

theorem inWindow_iff (l : ControlLink) (seq : UInt64) :
    l.inWindow seq = true ↔ l.recvNext.toNat + 32 < 2 ^ 64 ∧
      l.recvNext.toNat ≤ seq.toNat ∧ seq.toNat < l.recvNext.toNat + 32 := by
  have hr := l.recvNext.toNat_lt
  have hs := seq.toNat_lt
  simp only [inWindow, Bool.and_eq_true, decide_eq_true_eq, UInt64.le_iff_toNat_le,
    UInt64.lt_iff_toNat_lt, UInt64.toNat_add, recvWindow_toNat]
  omega

theorem send_ok {l l' : ControlLink} {msg : ControlMsg} (h : l.send msg = .ok l') :
    checkLengths msg = .ok () ∧ l.pending.length < maxPending ∧ l' = { l with
      nextSeq := l.nextSeq + 1
      pending := l.pending ++ [{ seq := l.nextSeq, msg, nextSendMs := 0, sends := 0 }] } := by
  unfold send at h
  cases hc : checkLengths msg with
  | error e => simp [hc] at h
  | ok u =>
    rw [hc] at h
    simp only at h
    split_ifs at h with hfull
    exact ⟨rfl, by omega, (Except.ok.inj h).symm⟩

section Poll
variable (C : Codec CtlPacket) (l : ControlLink) (nowMs : UInt64)

@[simp] theorem poll_recvNext : (l.poll C nowMs).1.recvNext = l.recvNext := rfl
@[simp] theorem poll_outOfOrder : (l.poll C nowMs).1.outOfOrder = l.outOfOrder := rfl
@[simp] theorem poll_peerAck : (l.poll C nowMs).1.peerAck = l.peerAck := rfl
@[simp] theorem poll_nextSeq : (l.poll C nowMs).1.nextSeq = l.nextSeq := rfl

theorem mem_poll {d : Bytes} (h : d ∈ (l.poll C nowMs).2) :
    d = encode C { ack := l.recvNext, ackBits := l.ackBits, frame := none } ∨
    d ∈ (pollScan l.sendLimit nowMs (fun p => encode C (l.framePacket p)) l.pending).2.1 := by
  simp only [poll] at h
  split_ifs at h
  · exact .inl (List.mem_singleton.mp h)
  · exact .inr h

end Poll

theorem takeFrame_spec {l : ControlLink} {seq : UInt64} (msg : ControlMsg) (hw : l.Windowed)
    (hin : l.inWindow seq = true) (hnew : seq ∉ l.outOfOrder) :
    (l.takeFrame seq msg).1.recvNext.toNat =
      l.recvNext.toNat + (l.takeFrame seq msg).2.length ∧
    (∀ k : UInt64, (l.takeFrame seq msg).1.outOfOrder[k]? =
      if k.toNat < (l.takeFrame seq msg).1.recvNext.toNat then none
      else if seq = k then some msg else l.outOfOrder[k]?) ∧
    (l.takeFrame seq msg).1.outOfOrder[(l.takeFrame seq msg).1.recvNext]? = none ∧
    ∀ i m, (l.takeFrame seq msg).2[i]? = some m → ∃ k : UInt64,
      k.toNat = l.recvNext.toNat + i ∧
      (if seq = k then some msg else l.outOfOrder[k]?) = some m := by
  obtain ⟨hfit, hlo, hhi⟩ := (l.inWindow_iff seq).mp hin
  have hmem : ∀ k : UInt64, k ∈ l.outOfOrder.insert seq msg → k = seq ∨ k ∈ l.outOfOrder := by
    intro k hk
    obtain ⟨v, hv⟩ := (mem_iff _ k).mp hk
    rw [getElem?_insert] at hv
    split_ifs at hv with hs
    · exact .inl hs.symm
    · exact .inr (mem_of_getElem? hv)
  have hle : ∀ k : UInt64, k ∈ l.outOfOrder.insert seq msg →
      l.recvNext.toNat ≤ k.toNat ∧ k.toNat < l.recvNext.toNat + 32 := by
    intro k hk
    rcases hmem k hk with rfl | hk
    · exact ⟨hlo, hhi⟩
    · exact ⟨(hw k hk).1.le, (hw k hk).2⟩
  have hcontains : l.outOfOrder.contains seq = false := by
    simpa only [Bool.eq_false_iff, ne_eq, ExtTreeMap.contains_iff_mem] using hnew
  have hspec := drain_spec (n := (l.outOfOrder.insert seq msg).size) le_rfl
    (fun k hk => (hle k hk).1) (fun k hk => by have := (hle k hk).2; omega)
  simpa only [takeFrame, hin, hcontains, Bool.not_false, Bool.and_self, if_true,
    getElem?_insert] using hspec

theorem takeFrame_of_not {l : ControlLink} {seq : UInt64} {msg : ControlMsg}
    (h : ¬(l.inWindow seq = true ∧ seq ∉ l.outOfOrder)) : l.takeFrame seq msg = (l, []) := by
  have hb : (l.inWindow seq && !l.outOfOrder.contains seq) = false := by
    rw [Bool.eq_false_iff, ne_eq, Bool.and_eq_true, Bool.not_eq_true', Bool.eq_false_iff, ne_eq,
      ExtTreeMap.contains_iff_mem]
    exact h
  simp only [takeFrame, hb, Bool.false_eq_true, if_false]

theorem takeFrame_fst (l : ControlLink) (seq : UInt64) (msg : ControlMsg) :
    (l.takeFrame seq msg).1 = { l with
      recvNext := (l.takeFrame seq msg).1.recvNext
      outOfOrder := (l.takeFrame seq msg).1.outOfOrder } := by
  unfold takeFrame
  split <;> rfl

theorem Windowed.takeFrame {l : ControlLink} (hw : l.Windowed) (seq : UInt64) (msg : ControlMsg) :
    (l.takeFrame seq msg).1.Windowed := by
  by_cases h : l.inWindow seq = true ∧ seq ∉ l.outOfOrder
  · obtain ⟨hlen, hkeep, hstop, -⟩ := takeFrame_spec msg hw h.1 h.2
    have hseq := ((l.inWindow_iff seq).mp h.1).2.2
    intro k hk
    obtain ⟨v, hv⟩ := (mem_iff _ k).mp hk
    have hne : (l.takeFrame seq msg).1.recvNext ≠ k := by
      rintro rfl
      simp [hstop] at hv
    have hne' : (l.takeFrame seq msg).1.recvNext.toNat ≠ k.toNat :=
      fun e => hne (UInt64.toNat_inj.mp e)
    rw [hkeep k] at hv
    split_ifs at hv with hlt hs
    · subst hs
      omega
    · have := (hw k (mem_of_getElem? hv)).2
      omega
  · rw [takeFrame_of_not h]
    exact hw

/-- What a packet does: its ack is taken, and its frame is either passed over or
goes to the buffer. -/
theorem receivePacket_cases (l : ControlLink) (pkt : CtlPacket) :
    ∃ needAck, ((l.receivePacket pkt).1 = { l.takeAck pkt with needAck } ∧
        (l.receivePacket pkt).2.toOption.getD [] = []) ∨
      ∃ seq msg, pkt.frame = some (seq, msg) ∧ checkLengths msg = .ok () ∧
        (l.receivePacket pkt).1 = ({ l.takeAck pkt with needAck }.takeFrame seq msg).1 ∧
        (l.receivePacket pkt).2 = .ok ({ l.takeAck pkt with needAck }.takeFrame seq msg).2 := by
  unfold receivePacket
  cases hf : pkt.frame with
  | none => exact ⟨_, .inl ⟨rfl, rfl⟩⟩
  | some f =>
    obtain ⟨seq, msg⟩ := f
    cases hc : checkLengths msg with
    | error e => exact ⟨true, .inl ⟨by simp only [hc], by simp only [hc]; rfl⟩⟩
    | ok u => exact ⟨true, .inr ⟨seq, msg, rfl, hc, by simp only [hc], by simp only [hc]⟩⟩

theorem Windowed.receivePacket {l : ControlLink} (hw : l.Windowed) (pkt : CtlPacket) :
    (l.receivePacket pkt).1.Windowed := by
  obtain ⟨needAck, ⟨h, -⟩ | ⟨seq, msg, -, -, h, -⟩⟩ := receivePacket_cases l pkt
  · rw [h]
    exact hw
  · rw [h]
    exact Windowed.takeFrame (l := { l.takeAck pkt with needAck }) hw seq msg

theorem toNat_bitSeq (l : ControlLink) (i : ℕ) :
    (l.recvNext + 1 + UInt64.ofNat i).toNat = (l.recvNext.toNat + 1 + i) % 2 ^ 64 := by
  simp only [UInt64.toNat_add, UInt64.toNat_one, UInt64.toNat_ofNat']
  omega

theorem testBit_ackBits (l : ControlLink) {i : ℕ} (hi : i < 32) :
    l.ackBits.toNat.testBit i = true ↔ l.recvNext + 1 + UInt64.ofNat i ∈ l.outOfOrder := by
  have hmask : l.ackBits = maskOf (fun i =>
      l.outOfOrder.contains (l.recvNext + 1 + UInt64.ofNat i)) 32 := rfl
  rw [hmask, testBit_maskOf _ le_rfl]
  simp only [hi, decide_true, Bool.true_and, ExtTreeMap.contains_iff_mem]

theorem ackBits_testBit {l : ControlLink} (hw : l.Windowed) {i : ℕ} (hi : i < 32) :
    l.ackBits.toNat.testBit i = true ↔
      ∃ k : UInt64, k ∈ l.outOfOrder ∧ k.toNat = l.recvNext.toNat + 1 + i := by
  rw [l.testBit_ackBits hi]
  have hto := l.toNat_bitSeq i
  constructor
  · intro hk
    have := hw _ hk
    exact ⟨_, hk, by omega⟩
  · rintro ⟨k, hk, hkn⟩
    have heq : l.recvNext + 1 + UInt64.ofNat i = k := by
      have := k.toNat_lt
      rw [← UInt64.toNat_inj, hto, hkn]
      omega
    exact heq ▸ hk

theorem size_le_of_windowed {l : ControlLink} (hw : l.Windowed) : l.outOfOrder.size ≤ 31 := by
  have hcard := size_le_card (t := l.outOfOrder) (f := UInt64.toNat)
    (S := Finset.Ioo l.recvNext.toNat (l.recvNext.toNat + 32))
    (fun _ _ h => UInt64.toNat_inj.mp h) (fun k hk => Finset.mem_Ioo.mpr (hw k hk))
  rw [Nat.card_Ioo] at hcard
  omega

end ControlLink

theorem CtlPacket.covers_iff (pkt : CtlPacket) (seq : UInt64) :
    pkt.covers seq = true ↔ seq.toNat < pkt.ack.toNat ∨
      ∃ i < 32, seq.toNat = pkt.ack.toNat + 1 + i ∧ pkt.ackBits.toNat.testBit i = true := by
  have ha := pkt.ack.toNat_lt
  have hs := seq.toNat_lt
  have hbit : pkt.ack.toNat < seq.toNat → seq.toNat ≤ pkt.ack.toNat + 32 →
      (((pkt.ackBits >>> (seq - pkt.ack - 1).toUInt32) &&& 1 == 1) =
        pkt.ackBits.toNat.testBit (seq.toNat - pkt.ack.toNat - 1)) := by
    intro hlt hle
    have hn : ((seq - pkt.ack - 1).toUInt32).toNat = seq.toNat - pkt.ack.toNat - 1 := by
      rw [UInt64.toNat_toUInt32, UInt64.toNat_sub_of_le, UInt64.toNat_sub_of_le]
      · simp only [UInt64.toNat_one]
        omega
      · exact UInt64.le_iff_toNat_le.mpr hlt.le
      · rw [UInt64.le_iff_toNat_le, UInt64.toNat_sub_of_le _ _ (UInt64.le_iff_toNat_le.mpr hlt.le)]
        simp only [UInt64.toNat_one]
        omega
    rw [shiftRight_and_one _ _ (by omega), hn]
  have hsub : pkt.ack.toNat < seq.toNat →
      (seq - pkt.ack ≤ 32 ↔ seq.toNat ≤ pkt.ack.toNat + 32) := by
    intro hlt
    rw [UInt64.le_iff_toNat_le, UInt64.toNat_sub_of_le _ _ (UInt64.le_iff_toNat_le.mpr hlt.le)]
    simp only [UInt64.reduceToNat]
    omega
  simp only [covers, Bool.or_eq_true, Bool.and_eq_true, decide_eq_true_eq,
    UInt64.lt_iff_toNat_lt]
  constructor
  · rintro (h | ⟨⟨hlt, hle⟩, hb⟩)
    · exact .inl h
    · have hle' := (hsub hlt).mp hle
      rw [hbit hlt hle'] at hb
      exact .inr ⟨_, by omega, by omega, hb⟩
  · rintro (h | ⟨i, hi, hseq, hb⟩)
    · exact .inl h
    · have hlt : pkt.ack.toNat < seq.toNat := by omega
      have hle : seq.toNat ≤ pkt.ack.toNat + 32 := by omega
      have hidx : seq.toNat - pkt.ack.toNat - 1 = i := by omega
      refine .inr ⟨⟨hlt, (hsub hlt).mpr hle⟩, ?_⟩
      rw [hbit hlt hle, hidx]
      exact hb

end JamStream.Protocol
