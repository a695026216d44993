import JamStream.Protocol.LinkRuns

/-! How large a control datagram gets. The length rules bound every message but
one: a roster has a cap for each name and none for how many entries it lists. -/

namespace JamStream.Protocol
open Foundations Codec Runs ControlLink

def transportHeaderBytes : ℕ := 11
def tagBytes : ℕ := 16

/-- The bytes on the wire for one plaintext datagram of a link. -/
def sealedLen (plaintext : Bytes) : ℕ := transportHeaderBytes + plaintext.length + tagBytes

theorem varintLen_u16 (n : UInt16) : varintLen n.toNat ≤ 3 :=
  varintLen_le (n.toNat_lt.trans (by norm_num)) (by norm_num)

theorem varintLen_u32 (n : UInt32) : varintLen n.toNat ≤ 5 :=
  varintLen_le (n.toNat_lt.trans (by norm_num)) (by norm_num)

theorem varintLen_u64 (n : UInt64) : varintLen n.toNat ≤ 10 :=
  varintLen_le (n.toNat_lt.trans (by norm_num)) (by norm_num)

theorem textLen_le {s : String} {n : ℕ} (h : ¬n < s.utf8ByteSize) (hn : n < 128 ^ 2) :
    textLen s ≤ n + 2 := by
  have hv := varintLen_le (k := 2) (n := s.utf8ByteSize) (by omega) (by norm_num)
  unfold textLen
  omega

theorem DestinationStatus.wireLen_le {d : DestinationStatus} (h : d.state.badReason = false) :
    d.wireLen ≤ 232 := by
  have hstate : d.state.wireLen ≤ 203 := by
    cases hd : d.state with
    | failed reason =>
      rw [hd] at h
      have hlen : ¬maxStreamReasonLen < reason.utf8ByteSize := by
        simpa only [DestinationState.badReason, decide_eq_false_iff_not] using h
      have := textLen_le hlen (by decide)
      simp only [DestinationState.wireLen, maxStreamReasonLen] at this ⊢
      omega
    | _ => simp [DestinationState.wireLen]
  have hid := varintLen_u16 d.id
  have hrate := varintLen_u32 d.bitrateKbps
  have hdrop := varintLen_u64 d.droppedFrames
  have hrep := varintLen_u64 d.repeatedFrames
  unfold DestinationStatus.wireLen
  omega

theorem sum_wireLen_le {destinations : List DestinationStatus}
    (hlen : destinations.length ≤ maxDestinations)
    (hok : ∀ d ∈ destinations, d.state.badReason = false) :
    (destinations.map DestinationStatus.wireLen).sum ≤ 1856 := by
  have hsum := List.sum_le_card_nsmul (destinations.map DestinationStatus.wireLen) 232 (by
    intro n hn
    obtain ⟨d, hd, rfl⟩ := List.mem_map.mp hn
    exact d.wireLen_le (hok d hd))
  rw [List.length_map, smul_eq_mul] at hsum
  simp only [maxDestinations] at hlen
  omega

def ControlMsg.isRoster : ControlMsg → Bool
  | .roster _ => true
  | _ => false

theorem ControlMsg.wireLen_le {msg : ControlMsg} (h : checkLengths msg = .ok ())
    (hr : msg.isRoster = false) : msg.wireLen ≤ 1990 := by
  cases msg with
  | roster members => cases hr
  | chat sender text =>
    have hlen := textLen_le (refuseIf_ok.mp h) (by decide)
    have hid := varintLen_u16 sender
    simp only [ControlMsg.wireLen, maxChatLen] at hlen ⊢
    omega
  | bye reason =>
    have hlen := textLen_le (refuseIf_ok.mp h) (by decide)
    simp only [ControlMsg.wireLen, maxChatLen] at hlen ⊢
    omega
  | avatarChunk hash index total data =>
    have hlen := refuseIf_ok.mp h
    have hidx := varintLen_u16 index
    have htot := varintLen_u16 total
    have hdata := varintLen_le (k := 2) (n := data.length)
      (by simp only [avatarChunkBytes] at hlen; omega) (by norm_num)
    simp only [ControlMsg.wireLen, avatarChunkBytes] at hlen ⊢
    omega
  | streamCtl op =>
    cases op with
    | addDestination id platform key =>
      have hlen := textLen_le (not_or.mp (refuseIf_ok.mp h)).2 (by decide)
      have hid := varintLen_u16 id
      simp only [ControlMsg.wireLen, StreamOp.wireLen, maxStreamKeyLen] at hlen ⊢
      omega
    | removeDestination id =>
      have hid := varintLen_u16 id
      simp only [ControlMsg.wireLen, StreamOp.wireLen]
      omega
    | start => simp [ControlMsg.wireLen, StreamOp.wireLen]
    | stop => simp [ControlMsg.wireLen, StreamOp.wireLen]
  | streamStatus destinations =>
    obtain ⟨hlen, hok⟩ := not_or.mp (refuseIf_ok.mp h)
    have hlen := Nat.not_lt.mp hlen
    have hsum := sum_wireLen_le hlen (by simpa using hok)
    have hcount := varintLen_le (k := 1) (n := destinations.length)
      (by simp only [maxDestinations] at hlen; omega) (by norm_num)
    simp only [ControlMsg.wireLen]
    omega
  | recordStatus state stems =>
    cases state with
    | failed reason =>
      have hlen := textLen_le (refuseIf_ok.mp h) (by decide)
      simp only [ControlMsg.wireLen, RecordingState.wireLen, maxRecordReasonLen] at hlen ⊢
      omega
    | _ => simp [ControlMsg.wireLen, RecordingState.wireLen]
  | broadcastReadiness state =>
    cases state with
    | unavailable reason =>
      have hlen := textLen_le (refuseIf_ok.mp h) (by decide)
      simp only [ControlMsg.wireLen, BroadcastReadiness.wireLen, maxStreamReasonLen] at hlen ⊢
      omega
    | ready => simp [ControlMsg.wireLen, BroadcastReadiness.wireLen]
  | serverLog line =>
    have hlen := textLen_le (refuseIf_ok.mp h) (by decide)
    simp only [ControlMsg.wireLen, maxServerLogLine] at hlen ⊢
    omega
  | setName name =>
    have hlen := textLen_le (refuseIf_ok.mp h) (by decide)
    simp only [ControlMsg.wireLen, maxNameLen] at hlen ⊢
    omega
  | mixerSet target gainDb pan muted | broadcastMixSet target gainDb pan muted =>
    have hid := varintLen_u16 target
    simp only [ControlMsg.wireLen]
    omega
  | metronomeSet bpm beatsPerBar enabled =>
    have hbpm := varintLen_u16 bpm
    simp only [ControlMsg.wireLen]
    omega
  | ping nonce sentMs | pong nonce sentMs =>
    have hnonce := varintLen_u32 nonce
    have hsent := varintLen_u64 sentMs
    simp only [ControlMsg.wireLen]
    omega
  | stats loss depth recovered =>
    have hdepth := varintLen_u16 depth
    simp only [ControlMsg.wireLen]
    omega
  | setAvatar hash len =>
    have hl := varintLen_u32 len
    simp only [ControlMsg.wireLen]
    omega
  | _ => simp [ControlMsg.wireLen]

/-- What a roster may take up beside the packet's own numbers; nothing is asked
of any other message. -/
def ControlMsg.rosterFits (ack : UInt64) (ackBits : UInt32) (seq : UInt64) : ControlMsg → Prop
  | .roster members =>
    varintLen ack.toNat + varintLen ackBits.toNat + varintLen seq.toNat +
      varintLen members.length + (members.map MemberInfo.wireLen).sum ≤ 2018
  | _ => True

variable {C : Codec CtlPacket}

theorem sealedLen_encode (hC : C.Sized CtlPacket.wireLen) (pkt : CtlPacket) :
    sealedLen (encode C pkt) = 28 + pkt.wireLen := by
  simp only [sealedLen, encode, List.length_cons, hC pkt, transportHeaderBytes, tagBytes]
  omega

theorem frame_fits_iff (hC : C.Sized CtlPacket.wireLen) {l : ControlLink} {p : Pending}
    (h : checkLengths p.msg = .ok ()) :
    sealedLen (encode C (l.framePacket p)) ≤ maxDatagramBytes ↔
      p.msg.rosterFits l.recvNext l.ackBits p.seq := by
  have hack := varintLen_u64 l.recvNext
  have hbits := varintLen_u32 l.ackBits
  have hseq := varintLen_u64 p.seq
  rw [sealedLen_encode hC]
  simp only [CtlPacket.wireLen, framePacket, Option.elim_some, maxDatagramBytes]
  cases hr : p.msg.isRoster with
  | false =>
    have hlen := p.msg.wireLen_le h hr
    have hfits : p.msg.rosterFits l.recvNext l.ackBits p.seq := by
      unfold ControlMsg.rosterFits
      split
      · rename_i heq
        rw [heq] at hr
        cases hr
      · trivial
    exact iff_of_true (by omega) hfits
  | true =>
    obtain ⟨members, hm⟩ : ∃ members, p.msg = .roster members := by
      cases hm : p.msg with
      | roster members => exact ⟨members, rfl⟩
      | _ => rw [hm] at hr; cases hr
    simp only [hm, ControlMsg.wireLen, ControlMsg.rosterFits]
    omega

theorem pending_checked {l : ControlLink} (ops : List LinkOp)
    (hl : l = run (LinkOp.step C) ControlLink.new ops) :
    ∀ p ∈ l.pending, checkLengths p.msg = .ok () := by
  subst hl
  refine run_invariant (P := fun l : ControlLink => ∀ p ∈ l.pending, checkLengths p.msg = .ok ())
    ?_ ?_ ops
  · intro l op h
    cases op with
    | send msg =>
      cases hs : l.send msg with
      | error e =>
        simp only [LinkOp.step, hs]
        exact h
      | ok l' =>
        obtain ⟨hc, -, rfl⟩ := send_ok hs
        simp only [LinkOp.step, hs]
        intro p hp
        rcases List.mem_append.mp hp with hp | hp
        · exact h p hp
        · rw [List.mem_singleton.mp hp]
          exact hc
    | poll nowMs =>
      intro p hp
      have hmem : p.msg ∈ l.pending.map Pending.msg := by
        have hq := congrArg (List.map Prod.snd) (pollScan_queue l.sendLimit nowMs
          (fun p => encode C (l.framePacket p)) l.pending)
        rw [List.map_map, List.map_map] at hq
        exact hq ▸ List.mem_map_of_mem hp
      obtain ⟨q, hq, heq⟩ := List.mem_map.mp hmem
      exact heq ▸ h q hq
    | packet pkt =>
      intro p hp
      rw [LinkOp.step, (Pair.receivePacket_sender l pkt).2.1] at hp
      exact h p (List.mem_filter.mp hp).1
  · simp [ControlLink.new]

theorem polled_fits_iff (hC : C.Sized CtlPacket.wireLen) {l : ControlLink} (ops : List LinkOp)
    (hl : l = run (LinkOp.step C) ControlLink.new ops) (nowMs : UInt64) {d : Bytes}
    (hd : d ∈ (l.poll C nowMs).2) :
    sealedLen d ≤ maxDatagramBytes ↔
      ∀ p ∈ l.pending, d = encode C (l.framePacket p) →
        p.msg.rosterFits l.recvNext l.ackBits p.seq := by
  have hok := pending_checked ops hl
  constructor
  · rintro hlen p hp rfl
    exact (frame_fits_iff hC (hok p hp)).mp hlen
  · intro hfits
    rcases mem_poll C l nowMs hd with rfl | hd
    · have hack := varintLen_u64 l.recvNext
      have hbits := varintLen_u32 l.ackBits
      rw [sealedLen_encode hC]
      simp only [CtlPacket.wireLen, Option.elim_none, maxDatagramBytes]
      omega
    · obtain ⟨p, hp, -, rfl⟩ := mem_pollScan hd
      exact (frame_fits_iff hC (hok p hp)).mpr (hfits p hp rfl)

def crowd (n : ℕ) : List MemberInfo :=
  (List.range n).map fun i =>
    { id := UInt16.ofNat i, role := .musician, name := String.ofList (List.replicate 64 'a'),
      connected := false, avatarHash := some 0, quiet := false }

def withRoster (members : List MemberInfo) : ControlLink :=
  { ControlLink.new with
    nextSeq := 1
    pending := [{ seq := 0, msg := .roster members, nextSendMs := 0, sends := 0 }] }

theorem send_roster {members : List MemberInfo} (h : checkLengths (.roster members) = .ok ()) :
    ControlLink.new.send (.roster members) = .ok (withRoster members) := by
  simp only [ControlLink.send, h]
  rfl

theorem poll_withRoster (C : Codec CtlPacket) (members : List MemberInfo) :
    ((withRoster members).poll C 0).2 =
      [encode C { ack := 0, ackBits := 0, frame := some (0, .roster members) }] := rfl

theorem polled_fits_iff_nineteen :
    sealedLen (encode Postcard.ctlPacket
      { ack := 0, ackBits := 0, frame := some (0, .roster (crowd 19)) }) ≤ maxDatagramBytes := by
  have hsend := @send_roster (crowd 19) (by decide)
  refine (polled_fits_iff Postcard.ctlPacket_sized [.send (.roster (crowd 19))]
    (l := withRoster (crowd 19)) ?_ 0 ?_).mpr ?_
  · simp only [run_cons, run_nil, LinkOp.step, hsend]
    rfl
  · rw [poll_withRoster]
    exact List.mem_singleton.mpr rfl
  · intro p hp _
    rw [List.mem_singleton.mp hp]
    simp only [ControlMsg.rosterFits]
    decide

/-- Twenty are accepted too, and the datagram fits no receive buffer. -/
theorem twenty_accepted_too_large :
    ∃ l, ControlLink.new.send (.roster (crowd 20)) = .ok l ∧
      ∃ d ∈ (l.poll Postcard.ctlPacket 0).2, maxDatagramBytes < sealedLen d := by
  refine ⟨_, send_roster (by decide), encode Postcard.ctlPacket
    { ack := 0, ackBits := 0, frame := some (0, .roster (crowd 20)) }, ?_, ?_⟩
  · rw [poll_withRoster]
    exact List.mem_singleton.mpr rfl
  · rw [sealedLen_encode Postcard.ctlPacket_sized]
    decide

end JamStream.Protocol
