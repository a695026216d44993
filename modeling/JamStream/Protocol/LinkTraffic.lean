import JamStream.Protocol.LinkRuns

/-! What a link makes of the datagrams it is handed, and what it sends in return. A datagram is
read whole or not at all, a refused one leaves the receiving half alone, and each bare ack
answers a frame. -/

namespace JamStream.Protocol
open Foundations OrderedMap Runs ControlLink
open Std (ExtTreeMap)

/-- The packet a datagram is read as: the channel byte, one packet, and nothing after it. -/
def opened (C : Codec CtlPacket) : Bytes → Option CtlPacket
  | [] => none
  | tag :: body =>
    if tag = channelControl then
      (C.de body).bind fun r => if r.2.isEmpty then some r.1 else none
    else none

theorem opened_encode {C : Codec CtlPacket} (hC : C.Lawful) (pkt : CtlPacket) :
    opened C (encode C pkt) = some pkt := by
  rw [encode, opened, if_pos rfl, hC.de_ser]
  rfl

namespace ControlLink
variable {C : Codec CtlPacket}

theorem receive_of_opened {l : ControlLink} {buf : Bytes} {pkt : CtlPacket}
    (h : opened C buf = some pkt) : l.receive C buf = l.receivePacket pkt := by
  rcases buf with _ | ⟨tag, body⟩
  · cases h
  · rw [opened] at h
    split_ifs at h with htag
    obtain ⟨⟨pkt', rest⟩, hde, hrest⟩ := Option.bind_eq_some_iff.mp h
    rcases rest with _ | ⟨b, rest⟩
    · cases hrest
      rw [receive, if_pos htag, hde]
    · cases hrest

theorem receive_of_not_opened (l : ControlLink) {buf : Bytes} (h : opened C buf = none) :
    ∃ e, l.receive C buf = (l, .error e) := by
  rcases buf with _ | ⟨tag, body⟩
  · exact ⟨_, rfl⟩
  · rw [receive]
    by_cases htag : tag = channelControl
    · rw [if_pos htag]
      rw [opened, if_pos htag] at h
      rcases hde : C.de body with _ | ⟨pkt, rest⟩
      · exact ⟨_, rfl⟩
      · rcases rest with _ | ⟨b, rest⟩
        · rw [hde] at h
          cases h
        · exact ⟨_, rfl⟩
    · rw [if_neg htag]
      exact ⟨_, rfl⟩

/-- The two links have received the same frames. -/
def SameIntake (l l' : ControlLink) : Prop :=
  l.recvNext = l'.recvNext ∧ l.outOfOrder = l'.outOfOrder

theorem SameIntake.ackBits {l l' : ControlLink} (h : l.SameIntake l') :
    l.ackBits = l'.ackBits := by
  rw [ControlLink.ackBits, ControlLink.ackBits, h.1, h.2]

theorem SameIntake.takeFrame {l l' : ControlLink} (h : l.SameIntake l') (seq : UInt64)
    (msg : ControlMsg) : (l.takeFrame seq msg).1.SameIntake (l'.takeFrame seq msg).1 := by
  obtain ⟨hnext, hbuf⟩ := h
  rw [ControlLink.takeFrame, ControlLink.takeFrame, inWindow, inWindow, hnext, hbuf]
  split_ifs
  · exact ⟨rfl, rfl⟩
  · exact ⟨hnext, hbuf⟩

theorem SameIntake.receivePacket {l l' : ControlLink} (h : l.SameIntake l') (pkt : CtlPacket) :
    (l.receivePacket pkt).1.SameIntake (l'.receivePacket pkt).1 := by
  unfold ControlLink.receivePacket
  rcases pkt.frame with _ | ⟨seq, msg⟩
  · exact h
  · rcases hlengths : checkLengths msg with e | u
    · simp only [hlengths]
      exact h
    · simp only [hlengths]
      refine SameIntake.takeFrame ?_ seq msg
      exact h

theorem drain_has {n : ℕ} {next : UInt64} {buf : ExtTreeMap UInt64 ControlMsg} {i : ℕ}
    (h : i < (drain n next buf).1.toNat ∨ ∃ k : UInt64, k ∈ (drain n next buf).2.1 ∧ k.toNat = i) :
    i < next.toNat ∨ ∃ k : UInt64, k ∈ buf ∧ k.toNat = i := by
  induction n generalizing next buf with
  | zero => exact h
  | succ n ih =>
    rcases hb : buf[next]? with _ | msg
    · simpa only [drain, hb] using h
    · simp only [drain, hb] at h
      have hmem : next ∈ buf := mem_of_getElem? hb
      rcases ih h with hlt | ⟨k, hk, hki⟩
      · have hstep : (next + 1).toNat ≤ next.toNat + 1 := by
          rw [UInt64.toNat_add, UInt64.toNat_one]
          exact Nat.mod_le _ _
        rcases Nat.lt_or_ge i next.toNat with hbelow | hnew
        · exact .inl hbelow
        · exact .inr ⟨next, hmem, by omega⟩
      · rw [ExtTreeMap.mem_erase] at hk
        exact .inr ⟨k, hk.2, hki⟩

theorem has_of_takeFrame {l : ControlLink} {seq : UInt64} {msg : ControlMsg} {i : ℕ}
    (h : (l.takeFrame seq msg).1.Has i) : l.Has i ∨ i = seq.toNat := by
  rw [takeFrame] at h
  split_ifs at h
  · rcases drain_has h with hlt | ⟨k, hk, hki⟩
    · exact .inl (.inl hlt)
    · rw [ExtTreeMap.mem_insert, Std.compare_eq_iff_eq] at hk
      rcases hk with rfl | hk
      · exact .inr hki.symm
      · exact .inl (.inr ⟨k, hk, hki⟩)
  · exact .inl h

theorem has_of_receivePacket {l : ControlLink} {pkt : CtlPacket} {i : ℕ}
    (h : (l.receivePacket pkt).1.Has i) : l.Has i ∨
      ∃ seq msg, pkt.frame = some (seq, msg) ∧ checkLengths msg = .ok () ∧ i = seq.toNat := by
  obtain ⟨needAck, ⟨hp, -⟩ | ⟨seq, msg, hframe, hlengths, hp, -⟩⟩ := receivePacket_cases l pkt
  · rw [hp] at h
    exact .inl h
  · rw [hp] at h
    rcases has_of_takeFrame h with h | h
    · exact .inl h
    · exact .inr ⟨seq, msg, hframe, hlengths, h⟩

end ControlLink

/-- A call on a link whose peer may put any bytes on the wire. -/
inductive LinkCall
  | send (msg : ControlMsg)
  | poll (nowMs : UInt64)
  | receive (buf : Bytes)

namespace LinkCall
variable {C : Codec CtlPacket}

def step (C : Codec CtlPacket) (l : ControlLink) : LinkCall → ControlLink
  | .send msg => (l.send msg).toOption.getD l
  | .poll nowMs => (l.poll C nowMs).1
  | .receive buf => (l.receive C buf).1

/-- The call hands over a frame with this number that the link does not refuse. -/
def Accepts (C : Codec CtlPacket) (seq : UInt64) : LinkCall → Prop
  | .receive buf => ∃ pkt msg, opened C buf = some pkt ∧ pkt.frame = some (seq, msg) ∧
    checkLengths msg = .ok ()
  | _ => False

theorem sameIntake_step {l l' : ControlLink} (h : l.SameIntake l') (call : LinkCall) :
    (call.step C l).SameIntake (call.step C l') := by
  cases call with
  | send msg =>
    rcases send_cases l msg with hs | hs <;> rcases send_cases l' msg with hs' | hs' <;>
      rw [step, step, hs, hs'] <;> exact h
  | poll nowMs => exact h
  | receive buf =>
    rw [step, step]
    rcases ho : opened C buf with _ | pkt
    · obtain ⟨e, he⟩ := receive_of_not_opened l ho
      obtain ⟨e', he'⟩ := receive_of_not_opened l' ho
      rw [he, he']
      exact h
    · rw [receive_of_opened ho, receive_of_opened ho]
      exact h.receivePacket pkt

theorem sameIntake_run {l l' : ControlLink} (h : l.SameIntake l') (calls : List LinkCall) :
    (run (step C) l calls).SameIntake (run (step C) l' calls) := by
  induction calls generalizing l l' with
  | nil => exact h
  | cons call calls ih => exact ih (sameIntake_step h call)

theorem has_of_step {l : ControlLink} {call : LinkCall} {seq : UInt64}
    (h : (call.step C l).Has seq.toNat) : l.Has seq.toNat ∨ call.Accepts C seq := by
  cases call with
  | send msg =>
    rcases send_cases l msg with hs | hs <;> rw [step, hs] at h <;> exact .inl h
  | poll nowMs => exact .inl h
  | receive buf =>
    rw [step] at h
    rcases ho : opened C buf with _ | pkt
    · obtain ⟨e, he⟩ := receive_of_not_opened l ho
      rw [he] at h
      exact .inl h
    · rw [receive_of_opened ho] at h
      rcases has_of_receivePacket h with h | ⟨seq', msg, hframe, hlengths, hseq⟩
      · exact .inl h
      · obtain rfl := UInt64.toNat_inj.mp hseq
        exact .inr ⟨pkt, msg, ho, hframe, hlengths⟩

theorem has_of_run {l : ControlLink} {calls : List LinkCall} {seq : UInt64}
    (h : (run (step C) l calls).Has seq.toNat) :
    l.Has seq.toNat ∨ ∃ call ∈ calls, call.Accepts C seq := by
  induction calls generalizing l with
  | nil => exact .inl h
  | cons call calls ih =>
    rcases ih h with h | ⟨later, hmem, haccepts⟩
    · rcases has_of_step h with h | haccepts
      · exact .inl h
      · exact .inr ⟨call, List.mem_cons_self, haccepts⟩
    · exact .inr ⟨later, List.mem_cons_of_mem _ hmem, haccepts⟩

end LinkCall

theorem ControlLink.opened_poll {C : Codec CtlPacket} (hC : C.Lawful) {l : ControlLink}
    {nowMs : UInt64} {d : Bytes} (hd : d ∈ (l.poll C nowMs).2) {sent : CtlPacket}
    (hsent : opened C d = some sent) : sent.ack = l.recvNext ∧ sent.ackBits = l.ackBits := by
  rcases mem_poll C l nowMs hd with rfl | hframe
  · rw [opened_encode hC] at hsent
    cases hsent
    exact ⟨rfl, rfl⟩
  · obtain ⟨p, -, -, rfl⟩ := mem_pollScan hframe
    rw [opened_encode hC] at hsent
    cases hsent
    exact ⟨rfl, rfl⟩

/-- The refused packet may owe an answer, and its ack is taken; but what is acknowledged from
then on is what would have been without it, each frame on account of a packet that was taken. -/
theorem refused_leaves_no_trace {C : Codec CtlPacket} (hC : C.Lawful) {l : ControlLink}
    {buf : Bytes} {e : Error} (he : (l.receive C buf).2 = .error e) :
    (l.receive C buf).2.toOption.getD [] = [] ∧
    (l.receive C buf).1.recvNext = l.recvNext ∧
    (l.receive C buf).1.outOfOrder = l.outOfOrder ∧
    (opened C buf = none → (l.receive C buf).1 = l) ∧
    ∀ calls : List LinkCall,
      (run (LinkCall.step C) (l.receive C buf).1 calls).SameIntake
        (run (LinkCall.step C) l calls) ∧
      ∀ nowMs, ∀ d ∈ ((run (LinkCall.step C) (l.receive C buf).1 calls).poll C nowMs).2,
        ∀ sent seq, opened C d = some sent → sent.covers seq = true →
          l.Has seq.toNat ∨ ∃ call ∈ calls, call.Accepts C seq := by
  have hintake : (l.receive C buf).1.SameIntake l := by
    rcases ho : opened C buf with _ | pkt
    · obtain ⟨e', he'⟩ := receive_of_not_opened l ho
      rw [he']
      exact ⟨rfl, rfl⟩
    · rw [receive_of_opened ho] at he ⊢
      obtain ⟨needAck, ⟨hp, -⟩ | ⟨seq, msg, -, -, -, hok⟩⟩ := receivePacket_cases l pkt
      · rw [hp]
        exact ⟨rfl, rfl⟩
      · rw [hok] at he
        cases he
  refine ⟨by rw [he]; rfl, hintake.1, hintake.2, ?_, ?_⟩
  · intro ho
    obtain ⟨e', he'⟩ := receive_of_not_opened l ho
    rw [he']
  · intro calls
    have hsame := LinkCall.sameIntake_run (C := C) hintake calls
    refine ⟨hsame, ?_⟩
    intro nowMs d hd sent seq hsent hcovers
    obtain ⟨hack, hbits⟩ := opened_poll hC hd hsent
    have hhas : (run (LinkCall.step C) l calls).Has seq.toNat :=
      has_of_covers (hack.trans hsame.1) (hbits.trans hsame.ackBits) hcovers
    exact LinkCall.has_of_run hhas

/-- A destination without a stream key, as the first frame of a link. -/
def emptyKey : CtlPacket :=
  { ack := 0, ackBits := 0, frame := some (0, .streamCtl (.addDestination 1 .twitch "")) }

theorem receive_emptyKey :
    ControlLink.new.receive Postcard.ctlPacket (encode Postcard.ctlPacket emptyKey) =
      ({ ControlLink.new with needAck := true }, .error .malformed) := by
  rw [receive_of_opened (opened_encode Postcard.ctlPacket_lawful emptyKey)]
  rfl

theorem refused_leaves_no_trace_empty_key :
    (((ControlLink.new.receive Postcard.ctlPacket
        (encode Postcard.ctlPacket emptyKey)).1.poll Postcard.ctlPacket 0).2.all fun d =>
      (opened Postcard.ctlPacket d).all fun sent => !sent.covers 0) = true := by
  have hrefused := congrArg Prod.snd receive_emptyKey
  have htrace := (refused_leaves_no_trace Postcard.ctlPacket_lawful hrefused).2.2.2.2 []
  rw [List.all_eq_true]
  intro d hd
  rw [Option.all_eq_true]
  intro sent hsent
  rw [Bool.not_eq_true', ← Bool.not_eq_true]
  intro hcovers
  rcases htrace.2 0 d hd sent 0 hsent hcovers with hlt | ⟨call, hcall, -⟩
  · rcases hlt with hlt | ⟨k, hk, -⟩
    · exact absurd hlt (Nat.not_lt_zero _)
    · exact ExtTreeMap.not_mem_empty hk
  · exact absurd hcall List.not_mem_nil

def framed (C : Codec CtlPacket) (d : Bytes) : Bool := (opened C d).any fun pkt => pkt.frame.isSome

def bare (C : Codec CtlPacket) (d : Bytes) : Bool := (opened C d).any fun pkt => pkt.frame.isNone

structure Traffic where
  link : ControlLink
  framesHeard : ℕ
  acksSent : ℕ

namespace ControlLink
variable {C : Codec CtlPacket}

def owed (l : ControlLink) : ℕ := l.needAck.toNat

theorem receive_needAck (l : ControlLink) {buf : Bytes} (h : framed C buf = false) :
    (l.receive C buf).1.needAck = l.needAck := by
  rcases ho : opened C buf with _ | pkt
  · obtain ⟨e, he⟩ := receive_of_not_opened l ho
    rw [he]
  · rw [receive_of_opened ho, receivePacket]
    rw [framed, ho, Option.any_some, Option.isSome_eq_false_iff, Option.isNone_iff_eq_none] at h
    rw [h]
    rfl

theorem owed_receive_le (l : ControlLink) (buf : Bytes) :
    (l.receive C buf).1.owed ≤ l.owed + (framed C buf).toNat := by
  rcases hf : framed C buf with _ | _
  · rw [owed, receive_needAck l hf]
    exact Nat.le_add_right _ _
  · have := Bool.toNat_le (l.receive C buf).1.needAck
    rw [owed, Bool.toNat_true]
    omega

theorem countP_bare_pollScan (hC : C.Lawful) (l : ControlLink) (limit nowMs : UInt64)
    (ps : List Pending) :
    (pollScan limit nowMs (fun p => encode C (l.framePacket p)) ps).2.1.countP (bare C) = 0 := by
  rw [List.countP_eq_zero]
  intro d hd
  obtain ⟨p, -, -, rfl⟩ := mem_pollScan hd
  rw [bare, opened_encode hC]
  exact Bool.false_ne_true

theorem acks_poll_le (hC : C.Lawful) (l : ControlLink) (nowMs : UInt64) :
    (l.poll C nowMs).2.countP (bare C) + (l.poll C nowMs).1.owed ≤ l.owed := by
  have hpaid : (l.poll C nowMs).1.owed = 0 := rfl
  have hscan := countP_bare_pollScan hC l l.sendLimit nowMs l.pending
  rw [hpaid, Nat.add_zero, ControlLink.poll]
  rcases hneed : l.needAck with _ | _
  · rw [Bool.false_and, if_neg Bool.false_ne_true, hscan]
    exact Nat.zero_le _
  · rw [owed, hneed, Bool.true_and]
    split_ifs
    · exact List.countP_le_length
    · rw [hscan]
      exact Nat.zero_le _

end ControlLink

namespace Traffic
variable {C : Codec CtlPacket}

def new : Traffic := { link := .new, framesHeard := 0, acksSent := 0 }

def step (C : Codec CtlPacket) (t : Traffic) : LinkCall → Traffic
  | .send msg => { t with link := (t.link.send msg).toOption.getD t.link }
  | .poll nowMs => { t with
      link := (t.link.poll C nowMs).1
      acksSent := t.acksSent + (t.link.poll C nowMs).2.countP (bare C) }
  | .receive buf => { t with
      link := (t.link.receive C buf).1
      framesHeard := t.framesHeard + (framed C buf).toNat }

theorem link_step (t : Traffic) (call : LinkCall) :
    (t.step C call).link = call.step C t.link := by
  cases call <;> rfl

def Answered (t : Traffic) : Prop := t.acksSent + t.link.owed ≤ t.framesHeard

theorem Answered.step {t : Traffic} (hC : C.Lawful) (h : t.Answered) (call : LinkCall) :
    (t.step C call).Answered := by
  have hanswered : t.acksSent + t.link.owed ≤ t.framesHeard := h
  cases call with
  | send msg =>
    have howed : ((t.link.send msg).toOption.getD t.link).owed = t.link.owed := by
      rcases send_cases t.link msg with hs | hs
      · rw [hs]
      · rw [hs]
        rfl
    show t.acksSent + ((t.link.send msg).toOption.getD t.link).owed ≤ t.framesHeard
    rw [howed]
    exact hanswered
  | poll nowMs =>
    have hpoll := acks_poll_le hC t.link nowMs
    show t.acksSent + (t.link.poll C nowMs).2.countP (bare C) + (t.link.poll C nowMs).1.owed ≤
      t.framesHeard
    omega
  | receive buf =>
    have hreceive := owed_receive_le (C := C) t.link buf
    show t.acksSent + (t.link.receive C buf).1.owed ≤ t.framesHeard + (framed C buf).toNat
    omega

theorem answered_run (hC : C.Lawful) (calls : List LinkCall) :
    (run (step C) new calls).Answered := by
  have hnew : new.Answered := Nat.le_refl 0
  exact run_invariant (P := Answered) (fun _ call h => h.step hC call) hnew calls

end Traffic

/-- Two links that nobody gives a message to, and what is under way between them. -/
structure Exchange where
  a : ControlLink
  b : ControlLink
  toA : List Bytes
  toB : List Bytes

namespace Exchange
variable {C : Codec CtlPacket}

inductive Move
  | pollA (nowMs : UInt64)
  | pollB (nowMs : UInt64)
  | deliverA (i : ℕ)
  | deliverB (i : ℕ)
  | loseA (i : ℕ)
  | loseB (i : ℕ)

def step (C : Codec CtlPacket) (x : Exchange) : Move → Exchange
  | .pollA nowMs => { x with a := (x.a.poll C nowMs).1, toB := x.toB ++ (x.a.poll C nowMs).2 }
  | .pollB nowMs => { x with b := (x.b.poll C nowMs).1, toA := x.toA ++ (x.b.poll C nowMs).2 }
  | .deliverA i => { x with
      a := x.toA[i]?.elim x.a fun d => (x.a.receive C d).1
      toA := x.toA.eraseIdx i }
  | .deliverB i => { x with
      b := x.toB[i]?.elim x.b fun d => (x.b.receive C d).1
      toB := x.toB.eraseIdx i }
  | .loseA i => { x with toA := x.toA.eraseIdx i }
  | .loseB i => { x with toB := x.toB.eraseIdx i }

def emits (C : Codec CtlPacket) (x : Exchange) : Move → List Bytes
  | .pollA nowMs => (x.a.poll C nowMs).2
  | .pollB nowMs => (x.b.poll C nowMs).2
  | _ => []

def Idle (x : Exchange) : Prop := x.a.pending = [] ∧ x.b.pending = []

/-- The answers that are owed, or will be once what is under way has arrived. -/
def answersDue (C : Codec CtlPacket) (x : Exchange) : ℕ :=
  x.toA.countP (framed C) + x.toB.countP (framed C) + x.a.owed + x.b.owed

theorem poll_idle (l : ControlLink) (hidle : l.pending = []) (nowMs : UInt64) :
    (l.poll C nowMs).1.pending = [] ∧ (l.poll C nowMs).2 =
      if l.needAck then [encode C { ack := l.recvNext, ackBits := l.ackBits, frame := none }]
      else [] := by
  rw [ControlLink.poll, hidle]
  refine ⟨rfl, ?_⟩
  rcases l.needAck with _ | _ <;> rfl

theorem receive_idle (l : ControlLink) (hidle : l.pending = []) (d : Bytes) :
    (l.receive C d).1.pending = [] := by
  rcases ho : opened C d with _ | pkt
  · obtain ⟨e, he⟩ := receive_of_not_opened l ho
    rw [he]
    exact hidle
  · rw [receive_of_opened ho, (Pair.receivePacket_sender l pkt).2.1, takeAck]
    simp only [hidle, List.filter_nil]

theorem length_poll_idle (hC : C.Lawful) (l : ControlLink) (hidle : l.pending = [])
    (nowMs : UInt64) : (l.poll C nowMs).2.length = l.owed ∧
      (l.poll C nowMs).2.countP (framed C) = 0 := by
  rw [(poll_idle l hidle nowMs).2, owed]
  rcases l.needAck with _ | _
  · exact ⟨rfl, rfl⟩
  · refine ⟨rfl, ?_⟩
    rw [if_pos rfl, List.countP_singleton, framed, opened_encode hC]
    rfl

theorem countP_eraseIdx {α : Type} (p : α → Bool) (xs : List α) (i : ℕ) :
    (xs.eraseIdx i).countP p + xs[i]?.elim 0 (fun x => (p x).toNat) = xs.countP p := by
  induction xs generalizing i with
  | nil => rfl
  | cons x xs ih =>
    rcases i with _ | i
    · rw [List.eraseIdx_cons_zero, List.countP_cons, List.getElem?_cons_zero, Option.elim_some]
      rcases p x with _ | _ <;> rfl
    · rw [List.eraseIdx_cons_succ, List.countP_cons, List.countP_cons, List.getElem?_cons_succ,
        ← ih i]
      omega

theorem owed_deliver_le (l : ControlLink) (ds : List Bytes) (i : ℕ) :
    (ds[i]?.elim l fun d => (l.receive C d).1).owed + (ds.eraseIdx i).countP (framed C) ≤
      l.owed + ds.countP (framed C) := by
  rw [← countP_eraseIdx (framed C) ds i]
  rcases ds[i]? with _ | d
  · rw [Option.elim_none, Option.elim_none, Nat.add_zero]
  · have hle := owed_receive_le (C := C) l d
    rw [Option.elim_some, Option.elim_some]
    omega

theorem idle_deliver (l : ControlLink) (hidle : l.pending = []) (ds : List Bytes) (i : ℕ) :
    (ds[i]?.elim l fun d => (l.receive C d).1).pending = [] := by
  rcases ds[i]? with _ | d
  · exact hidle
  · exact receive_idle l hidle d

theorem Idle.step {x : Exchange} (h : x.Idle) (move : Move) : (x.step C move).Idle := by
  cases move with
  | pollA nowMs => exact ⟨(poll_idle x.a h.1 nowMs).1, h.2⟩
  | pollB nowMs => exact ⟨h.1, (poll_idle x.b h.2 nowMs).1⟩
  | deliverA i => exact ⟨idle_deliver x.a h.1 x.toA i, h.2⟩
  | deliverB i => exact ⟨h.1, idle_deliver x.b h.2 x.toB i⟩
  | loseA i => exact h
  | loseB i => exact h

theorem emits_add_answersDue_le (hC : C.Lawful) {x : Exchange} (h : x.Idle) (move : Move) :
    (x.emits C move).length + (x.step C move).answersDue C ≤ x.answersDue C := by
  cases move with
  | pollA nowMs =>
    obtain ⟨hlength, hframes⟩ := length_poll_idle hC x.a h.1 nowMs
    have hpaid : (x.a.poll C nowMs).1.owed = 0 := rfl
    simp only [emits, step, answersDue, List.countP_append, hlength, hframes, hpaid]
    omega
  | pollB nowMs =>
    obtain ⟨hlength, hframes⟩ := length_poll_idle hC x.b h.2 nowMs
    have hpaid : (x.b.poll C nowMs).1.owed = 0 := rfl
    simp only [emits, step, answersDue, List.countP_append, hlength, hframes, hpaid]
    omega
  | deliverA i =>
    have hle := owed_deliver_le (C := C) x.a x.toA i
    simp only [emits, step, answersDue, List.length_nil]
    omega
  | deliverB i =>
    have hle := owed_deliver_le (C := C) x.b x.toB i
    simp only [emits, step, answersDue, List.length_nil]
    omega
  | loseA i =>
    have hle := countP_eraseIdx (framed C) x.toA i
    simp only [emits, step, answersDue, List.length_nil]
    omega
  | loseB i =>
    have hle := countP_eraseIdx (framed C) x.toB i
    simp only [emits, step, answersDue, List.length_nil]
    omega

def after (C : Codec CtlPacket) (x : Exchange) (moves : ℕ → Move) : ℕ → Exchange
  | 0 => x
  | n + 1 => (after C x moves n).step C (moves n)

/-- What the first `n` moves put on the wire. -/
def emitted (C : Codec CtlPacket) (x : Exchange) (moves : ℕ → Move) : ℕ → List Bytes
  | 0 => []
  | n + 1 => emitted C x moves n ++ (after C x moves n).emits C (moves n)

theorem Idle.after {x : Exchange} (h : x.Idle) (moves : ℕ → Move) (n : ℕ) :
    (Exchange.after C x moves n).Idle := by
  induction n with
  | zero => exact h
  | succ n ih => exact ih.step (moves n)

theorem emitted_add_answersDue_le (hC : C.Lawful) {x : Exchange} (h : x.Idle)
    (moves : ℕ → Move) (n : ℕ) :
    (emitted C x moves n).length + (after C x moves n).answersDue C ≤ x.answersDue C := by
  induction n with
  | zero => rw [emitted, after, List.length_nil, Nat.zero_add]
  | succ n ih =>
    have hidle : (Exchange.after C x moves n).Idle := h.after moves n
    have hmove := emits_add_answersDue_le hC hidle (moves n)
    rw [emitted, after, List.length_append]
    omega

theorem falls_silent (hC : C.Lawful) {x : Exchange} (h : x.Idle) (moves : ℕ → Move) :
    ∃ n, ∀ m, n ≤ m → (after C x moves m).emits C (moves m) = [] := by
  have hbound : ∃ n, ∀ m, n ≤ m →
      (emitted C x moves m).length = (emitted C x moves n).length := by
    have hmono : Monotone fun n => (emitted C x moves n).length := by
      refine monotone_nat_of_le_succ ?_
      intro n
      rw [emitted, List.length_append]
      exact Nat.le_add_right _ _
    have hle : ∀ n, (emitted C x moves n).length ≤ x.answersDue C := by
      intro n
      have := emitted_add_answersDue_le hC h moves n
      omega
    have hsome : ∃ k n, x.answersDue C - (emitted C x moves n).length = k := ⟨_, 0, rfl⟩
    classical
    obtain ⟨n, hn⟩ := Nat.find_spec hsome
    refine ⟨n, fun m hm => ?_⟩
    have hleast := Nat.find_min' hsome ⟨m, rfl⟩
    have hup : (emitted C x moves n).length ≤ (emitted C x moves m).length := hmono hm
    have hn' := hle n
    have hm' := hle m
    omega
  obtain ⟨n, hn⟩ := hbound
  refine ⟨n, fun m hm => ?_⟩
  have hnow := hn m hm
  have hnext := hn (m + 1) (Nat.le_succ_of_le hm)
  rw [emitted, List.length_append] at hnext
  exact List.length_eq_zero_iff.mp (by omega)

end Exchange

/-- Every bare ack is paid for by a frame, so two links with nothing to send run out of them. -/
theorem acks_answer_frames {C : Codec CtlPacket} (hC : C.Lawful) :
    (∀ calls : List LinkCall, (run (Traffic.step C) Traffic.new calls).acksSent ≤
      (run (Traffic.step C) Traffic.new calls).framesHeard) ∧
    (∀ l : ControlLink, ∀ buf, framed C buf = false →
      (l.receive C buf).1.needAck = l.needAck) ∧
    ∀ x : Exchange, x.Idle → ∀ moves : ℕ → Exchange.Move,
      (∀ n, (x.emitted C moves n).length ≤ x.answersDue C) ∧
      ∃ n, ∀ m, n ≤ m → (x.after C moves m).emits C (moves m) = [] := by
  refine ⟨?_, fun l buf => receive_needAck l, ?_⟩
  · intro calls
    exact (Nat.le_add_right _ _).trans (Traffic.answered_run hC calls)
  · intro x hidle moves
    refine ⟨?_, Exchange.falls_silent hC hidle moves⟩
    intro n
    exact (Nat.le_add_right _ _).trans (Exchange.emitted_add_answersDue_le hC hidle moves n)

theorem acks_answer_frames_owed :
    (Exchange.emitted Postcard.ctlPacket
      ⟨{ ControlLink.new with needAck := true }, ControlLink.new, [], []⟩
      (fun _ => .pollA 0) 4).length ≤ 1 :=
  ((acks_answer_frames Postcard.ctlPacket_lawful).2.2 _ ⟨rfl, rfl⟩ (fun _ => .pollA 0)).1 4

end JamStream.Protocol
