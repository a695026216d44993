import JamStream.Protocol.Replay
import JamStream.Protocol.WireFormat

/-! An established connection over a network that drops, copies, holds back and makes up
datagrams: no counter seals twice, and what one end opens is what the other sealed, each once. -/

namespace JamStream.Protocol
open Runs

namespace Connection
variable {X : Crypto}

inductive Side
  | client
  | server
deriving DecidableEq

def Side.other : Side → Side
  | .client => .server
  | .server => .client

structure Sent where
  counter : UInt64
  plaintext : Bytes
  datagram : Bytes

structure Party (X : Crypto) where
  session : Session X
  sent : List Sent
  opened : List (UInt64 × Bytes)

namespace Party

def new (ts : X.TransportState) : Party X := { session := .new ts, sent := [], opened := [] }

def send (p : Party X) (member : MemberId) (plaintext : Bytes) : Party X :=
  let r := p.session.sealInto member plaintext
  { p with
    session := r.1
    sent := p.sent ++
      r.2.toList.map fun datagram => { counter := p.session.sendCounter, plaintext, datagram } }

/-- A transport datagram goes to the session; any other says nothing to it. -/
def answer (p : Party X) (datagram : Bytes) : Session X × Except Error (UInt64 × Bytes) :=
  match Wire.parse datagram with
  | .ok (.transport _ counter ciphertext) =>
    ((p.session.openPacket counter ciphertext).1,
      (p.session.openPacket counter ciphertext).2.map fun plain => (counter, plain))
  | _ => (p.session, .error .malformed)

def receive (p : Party X) (datagram : Bytes) : Party X :=
  { p with
    session := (p.answer datagram).1
    opened := p.opened ++ (p.answer datagram).2.toOption.toList }

end Party

inductive Move
  | send (side : Side) (member : MemberId) (plaintext : Bytes)
  | deliver (side : Side) (datagram : Bytes)

def start (ts : Side → X.TransportState) : Side → Party X := fun side => .new (ts side)

def step (c : Side → Party X) : Move → Side → Party X
  | .send side member plaintext => Function.update c side ((c side).send member plaintext)
  | .deliver side datagram => Function.update c side ((c side).receive datagram)

def Agree (ts : Side → X.TransportState) : Prop :=
  ∀ side counter plaintext ciphertext,
    X.writeTransport (ts side) counter plaintext = some ciphertext →
      X.readTransport (ts side.other) counter ciphertext = some plaintext

/-- What authenticates under a counter was written by the other end under that counter, and no
end has counted to the last number. -/
def Authentic (c : Side → Party X) : Move → Prop
  | .send side _ _ => (c side).session.sendCounter ≠ 18446744073709551615
  | .deliver side datagram => ∀ member counter ciphertext,
    Wire.parse datagram = .ok (.transport member counter ciphertext) →
      X.readTransport (c side).session.ts counter ciphertext ≠ none →
        ∃ e ∈ (c side.other).sent, e.counter = counter ∧
          X.writeTransport (c side.other).session.ts counter e.plaintext = some ciphertext

variable {ts : Side → X.TransportState} {c : Side → Party X} {side : Side}

structure Party.Orderly (p : Party X) (ts : X.TransportState) : Prop where
  keys : p.session.ts = ts
  below : ∀ e ∈ p.sent, e.counter < p.session.sendCounter
  distinct : (p.sent.map Sent.counter).Nodup
  written : ∀ e ∈ p.sent, ∃ member ciphertext,
    X.writeTransport ts e.counter e.plaintext = some ciphertext ∧
      e.datagram = Wire.buildTransport member e.counter ciphertext
  tracks : p.session.replay.Tracks (p.opened.map Prod.fst)
  once : (p.opened.map Prod.fst).Nodup

structure Secured (ts : Side → X.TransportState) (c : Side → Party X) : Prop where
  orderly : ∀ side, (c side).Orderly (ts side)
  genuine : ∀ side, ∀ o ∈ (c side).opened, ∃ e ∈ (c side.other).sent,
    e.counter = o.1 ∧ e.plaintext = o.2

theorem orderly_new (ts : X.TransportState) : (Party.new ts).Orderly ts where
  keys := rfl
  below _ h := absurd h List.not_mem_nil
  distinct := List.nodup_nil
  written _ h := absurd h List.not_mem_nil
  tracks := ⟨fun _ => rfl, fun h => (nomatch h), fun _ h => absurd h List.not_mem_nil,
    fun h => (nomatch h)⟩
  once := List.nodup_nil

theorem parse_buildTransport (member : MemberId) (counter : UInt64) (ciphertext : Bytes) :
    Wire.parse (Wire.buildTransport member counter ciphertext) =
      .ok (.transport member counter ciphertext) :=
  Wire.parse_layout (p := .transport member counter ciphertext) trivial

section party
variable {p : Party X} {key : X.TransportState} {member : MemberId} {plaintext : Bytes}

theorem lt_next {counter next : UInt64} (hroom : next ≠ 18446744073709551615)
    (h : counter ≤ next) : counter < next + 1 := by
  rw [UInt64.lt_iff_toNat_lt, UInt64.toNat_add]
  have hle := UInt64.le_iff_toNat_le.mp h
  have hnext := next.toNat_lt
  have hne : next.toNat ≠ 18446744073709551615 := fun heq => hroom (UInt64.toNat_inj.mp heq)
  have hone : (1 : UInt64).toNat = 1 := rfl
  omega

theorem Party.Orderly.send (h : p.Orderly key)
    (hroom : p.session.sendCounter ≠ 18446744073709551615) :
    (p.send member plaintext).Orderly key := by
  have hold : ∀ e ∈ p.sent, e.counter < p.session.sendCounter + 1 := fun e he =>
    lt_next hroom (UInt64.le_of_lt (h.below e he))
  cases hwrite : X.writeTransport p.session.ts p.session.sendCounter plaintext with
  | none =>
    have hsend : p.send member plaintext =
        { p with session := { p.session with sendCounter := p.session.sendCounter + 1 } } := by
      simp only [Party.send, Session.sealInto, hwrite, Option.map_none, Option.toList_none,
        List.map_nil, List.append_nil]
    rw [hsend]
    exact ⟨h.keys, hold, h.distinct, h.written, h.tracks, h.once⟩
  | some ciphertext =>
    have hsend : p.send member plaintext = { p with
        session := { p.session with sendCounter := p.session.sendCounter + 1 }
        sent := p.sent ++ [{
          counter := p.session.sendCounter
          plaintext
          datagram := Wire.buildTransport member p.session.sendCounter ciphertext }] } := by
      simp only [Party.send, Session.sealInto, hwrite, Option.map_some, Option.toList_some,
        List.map_cons, List.map_nil]
      rfl
    rw [hsend]
    refine ⟨h.keys, fun e he => ?_, ?_, fun e he => ?_, h.tracks, h.once⟩
    · rcases List.mem_append.mp he with hmem | hnew
      · exact hold e hmem
      · rw [List.mem_singleton.mp hnew]
        exact lt_next hroom (UInt64.le_refl _)
    · rw [List.map_append, List.map_singleton]
      refine List.nodup_append.mpr ⟨h.distinct, List.nodup_singleton _, ?_⟩
      rintro a ha b hb rfl
      obtain ⟨e, he, rfl⟩ := List.mem_map.mp ha
      have hlt := h.below e he
      rw [List.mem_singleton.mp hb] at hlt
      exact UInt64.lt_irrefl _ hlt
    · rcases List.mem_append.mp he with hmem | hnew
      · exact h.written e hmem
      · rw [List.mem_singleton.mp hnew]
        exact ⟨member, ciphertext, h.keys ▸ hwrite, rfl⟩

theorem mem_sent_send {e : Sent} (he : e ∈ p.sent) : e ∈ (p.send member plaintext).sent :=
  List.mem_append_left _ he

theorem answer_transport (p : Party X) {datagram : Bytes} {counter : UInt64} {ciphertext : Bytes}
    (hparse : Wire.parse datagram = .ok (.transport member counter ciphertext)) :
    p.answer datagram = ((p.session.openPacket counter ciphertext).1,
      (p.session.openPacket counter ciphertext).2.map fun plain => (counter, plain)) := by
  rw [Party.answer, hparse]

theorem openPacket_read {s : Session X} {counter : UInt64} {ciphertext plain : Bytes}
    (hread : X.readTransport s.ts counter ciphertext = some plain) :
    s.openPacket counter ciphertext = ({ s with replay := (s.replay.accept counter).1 },
      if (s.replay.accept counter).2 then .ok plain else .error .replay) := by
  rw [Session.openPacket, hread]

theorem Party.Orderly.ignore (h : p.Orderly key) {datagram : Bytes} {s : Session X} {error : Error}
    (hanswer : p.answer datagram = (s, .error error)) (hkeys : s.ts = key)
    (hcounter : s.sendCounter = p.session.sendCounter)
    (htracks : s.replay.Tracks (p.opened.map Prod.fst)) :
    (p.receive datagram).opened = p.opened ∧ (p.receive datagram).Orderly key := by
  have hreceive : p.receive datagram = { p with session := s } := by
    rw [Party.receive, hanswer]
    simp only [Except.toOption, Option.toList_none, List.append_nil]
  rw [hreceive]
  exact ⟨rfl, hkeys, hcounter ▸ h.below, h.distinct, h.written, htracks, h.once⟩

theorem Party.Orderly.take (h : p.Orderly key) {datagram : Bytes} {w : ReplayWindow}
    {counter : UInt64} {plain : Bytes}
    (hanswer : p.answer datagram = ({ p.session with replay := w }, .ok (counter, plain)))
    (hnew : counter ∉ p.opened.map Prod.fst)
    (htracks : w.Tracks (p.opened.map Prod.fst ++ [counter])) :
    (p.receive datagram).opened = p.opened ++ [(counter, plain)] ∧
      (p.receive datagram).Orderly key := by
  have hreceive : p.receive datagram = { p with
      session := { p.session with replay := w }, opened := p.opened ++ [(counter, plain)] } := by
    rw [Party.receive, hanswer]
    rfl
  rw [hreceive]
  refine ⟨rfl, h.keys, h.below, h.distinct, h.written, ?_, ?_⟩
  · change w.Tracks ((p.opened ++ [(counter, plain)]).map Prod.fst)
    rw [List.map_append, List.map_singleton]
    exact htracks
  · change ((p.opened ++ [(counter, plain)]).map Prod.fst).Nodup
    rw [List.map_append, List.map_singleton]
    refine List.nodup_append.mpr ⟨h.once, List.nodup_singleton _, ?_⟩
    rintro a ha b hb rfl
    rw [List.mem_singleton.mp hb] at ha
    exact hnew ha

theorem receive_cases (h : p.Orderly key) (datagram : Bytes) :
    (∃ member counter ciphertext plain,
      Wire.parse datagram = .ok (.transport member counter ciphertext) ∧
      X.readTransport key counter ciphertext = some plain ∧
      (p.receive datagram).opened = p.opened ++ [(counter, plain)] ∧
      (p.receive datagram).Orderly key) ∨
    ((p.receive datagram).opened = p.opened ∧ (p.receive datagram).Orderly key) := by
  have hkeys := h.keys
  by_cases htransport : ∃ member counter ciphertext,
      Wire.parse datagram = .ok (.transport member counter ciphertext)
  · obtain ⟨member, counter, ciphertext, hparse⟩ := htransport
    have hanswer := answer_transport p hparse
    obtain ⟨hverdict, htracks⟩ := ReplayWindow.tracks_offer h.tracks counter
    cases hread : X.readTransport p.session.ts counter ciphertext with
    | none =>
      rw [Session.openPacket_unread hread] at hanswer
      exact .inr (h.ignore hanswer hkeys rfl h.tracks)
    | some plain =>
      rw [openPacket_read hread] at hanswer
      cases haccept : (p.session.replay.accept counter).2 with
      | true =>
        rw [haccept, if_pos rfl] at hanswer
        rw [ReplayWindow.offer, haccept, if_pos rfl] at htracks
        have hnew := (hverdict.mp haccept).1
        obtain ⟨hopened, horderly⟩ := h.take hanswer hnew htracks
        exact .inl ⟨member, counter, ciphertext, plain, hparse, hkeys ▸ hread, hopened, horderly⟩
      | false =>
        rw [haccept, if_neg Bool.false_ne_true] at hanswer
        rw [ReplayWindow.offer, haccept, if_neg Bool.false_ne_true] at htracks
        exact .inr (h.ignore hanswer hkeys rfl htracks)
  · have hanswer : p.answer datagram = (p.session, .error .malformed) := by
      rw [Party.answer]
      split
      · next heq => exact absurd ⟨_, _, _, heq⟩ htransport
      · rfl
    exact .inr (h.ignore hanswer hkeys rfl h.tracks)

end party

theorem secured_start (ts : Side → X.TransportState) : Secured ts (start ts) where
  orderly side := orderly_new (ts side)
  genuine _ _ h := absurd h List.not_mem_nil

theorem Side.other_ne (side : Side) : side.other ≠ side := by cases side <;> decide

theorem Side.other_other (side : Side) : side.other.other = side := by cases side <;> rfl

theorem Secured.update (h : Secured ts c) {p : Party X} (horderly : p.Orderly (ts side))
    (hsent : ∀ e ∈ (c side).sent, e ∈ p.sent)
    (hopened : ∀ o ∈ p.opened, ∃ e ∈ (c side.other).sent, e.counter = o.1 ∧ e.plaintext = o.2) :
    Secured ts (Function.update c side p) := by
  constructor
  · intro s
    by_cases hs : s = side
    · subst hs
      rw [Function.update_self]
      exact horderly
    · rw [Function.update_of_ne hs]
      exact h.orderly s
  · intro s
    by_cases hs : s = side
    · subst hs
      rw [Function.update_self, Function.update_of_ne s.other_ne]
      exact hopened
    · have hside : s.other = side := by cases s <;> cases side <;> first | rfl | exact absurd rfl hs
      rw [Function.update_of_ne hs, hside, Function.update_self]
      intro o ho
      obtain ⟨e, he, hcounter, hplain⟩ := h.genuine s o ho
      exact ⟨e, hsent e (hside ▸ he), hcounter, hplain⟩

theorem Secured.step (hkeys : Agree ts) (h : Secured ts c) {move : Move}
    (hmove : Authentic c move) : Secured ts (Connection.step c move) := by
  cases move with
  | send side member plaintext =>
    exact h.update ((h.orderly side).send hmove) (fun _ he => mem_sent_send he) (h.genuine side)
  | deliver side datagram =>
    rcases receive_cases (h.orderly side) datagram with
      ⟨member, counter, ciphertext, plain, hparse, hread, hopened, horderly⟩ | ⟨hopened, horderly⟩
    · refine h.update horderly (fun _ he => he) fun o ho => ?_
      rw [hopened] at ho
      rcases List.mem_append.mp ho with hold | hnew
      · exact h.genuine side o hold
      · have hreads : X.readTransport (c side).session.ts counter ciphertext ≠ none := by
          rw [(h.orderly side).keys, hread]
          exact Option.some_ne_none plain
        obtain ⟨e, he, hcounter, hwrite⟩ := hmove member counter ciphertext hparse hreads
        rw [(h.orderly side.other).keys] at hwrite
        have hback := hkeys _ _ _ _ hwrite
        rw [side.other_other, hread] at hback
        rw [List.mem_singleton.mp hnew]
        exact ⟨e, he, hcounter, (Option.some.inj hback).symm⟩
    · exact h.update horderly (fun _ he => he) (hopened.symm ▸ h.genuine side)

theorem Secured.subperm (h : Secured ts c) (side : Side) :
    (c side).opened.Subperm ((c side.other).sent.map fun e => (e.counter, e.plaintext)) := by
  refine List.subperm_of_subset (List.Nodup.of_map _ (h.orderly side).once) fun o ho => ?_
  obtain ⟨e, he, hcounter, hplain⟩ := h.genuine side o ho
  exact List.mem_map.mpr ⟨e, he, Prod.ext hcounter hplain⟩

theorem Secured.answer_iff (hkeys : Agree ts) (h : Secured ts c) {e : Sent}
    (he : e ∈ (c side.other).sent) :
    ((c side).answer e.datagram).2 = .ok (e.counter, e.plaintext) ↔
      ReplayWindow.Fresh ((c side).opened.map Prod.fst) e.counter := by
  obtain ⟨member, ciphertext, hwrite, hdatagram⟩ := (h.orderly side.other).written e he
  have hread := hkeys _ _ _ _ hwrite
  rw [side.other_other, ← (h.orderly side).keys] at hread
  have hverdict := (ReplayWindow.tracks_offer (h.orderly side).tracks e.counter).1
  rw [hdatagram, answer_transport (c side) (parse_buildTransport member e.counter ciphertext),
    openPacket_read hread, ← hverdict]
  dsimp only
  cases haccept : ((c side).session.replay.accept e.counter).2 with
  | true =>
    rw [if_pos rfl]
    exact iff_of_true rfl rfl
  | false =>
    rw [if_neg Bool.false_ne_true]
    exact iff_of_false (fun h => by cases h) Bool.false_ne_true

/-- No counter seals two datagrams; what an end has opened is some of what the other sealed, each
at most once; and a sealed datagram is opened whenever it comes, unless it was opened before or is
64 or more behind the newest that was. -/
theorem each_datagram_opened_once (hkeys : Agree ts) {moves : List Move}
    (hauth : Meets step Authentic (start ts) moves) (side : Side) :
    ((run step (start ts) moves side).sent.map Sent.counter).Nodup ∧
    (run step (start ts) moves side).opened.Subperm
      ((run step (start ts) moves side.other).sent.map fun e => (e.counter, e.plaintext)) ∧
    ∀ e ∈ (run step (start ts) moves side.other).sent,
      ((run step (start ts) moves side).answer e.datagram).2 = .ok (e.counter, e.plaintext) ↔
        ReplayWindow.Fresh ((run step (start ts) moves side).opened.map Prod.fst) e.counter := by
  have h : Secured ts (run step (start ts) moves) :=
    (throughout_of_meets (P := Secured ts) (fun _ _ h hmove => h.step hkeys hmove)
      (secured_start ts) hauth).last
  exact ⟨(h.orderly side).distinct, h.subperm side, fun e he => h.answer_iff hkeys he⟩

def plainKeys : Side → Session.plaintext.TransportState := fun _ => ()

/-- One datagram goes to the server, and the network brings it twice. -/
def replayed : List Move :=
  [.send .client 2 [7], .deliver .server (Wire.buildTransport 2 0 [7]),
    .deliver .server (Wire.buildTransport 2 0 [7])]

theorem authentic_replayed :
    Meets step Authentic (start (X := Session.plaintext.toCrypto) plainKeys) replayed := by
  refine ⟨(by decide : (0 : UInt64) ≠ 18446744073709551615),
    fun member counter ciphertext hparse _ => ?_, fun member counter ciphertext hparse _ => ?_, trivial⟩
  all_goals
    rw [parse_buildTransport] at hparse
    obtain ⟨rfl, rfl, rfl⟩ := Wire.Packet.transport.inj (Except.ok.inj hparse)
    exact ⟨_, List.mem_singleton.mpr rfl, rfl, rfl⟩

theorem each_datagram_opened_once_replayed :
    ((run step (start (X := Session.plaintext.toCrypto) plainKeys) replayed .client).sent.map
      Sent.counter).Nodup ∧ (run step (start plainKeys) replayed .server).opened = [(0, [7])] :=
  ⟨(each_datagram_opened_once (fun _ _ _ _ h => h.symm) authentic_replayed .client).1, rfl⟩

end Connection
end JamStream.Protocol
