import JamStream.Foundations.Runs
import JamStream.Session.Plaintext
import JamStream.Session.Sealed

/-! What a stranger draws from the server. A stored answer is always one the responder
made, and whatever answers a datagram that is not a member's is no longer than it was. -/

namespace JamStream.Session
open Protocol Engine Foundations
open Std (ExtTreeMap)
variable {X : Externals}

def IsResponse (X : Externals) (resp : Bytes) : Prop :=
  ∃ (r : Responder X.toCrypto) (welcome : Welcome) (ephemeral : Bytes)
    (session : Protocol.Session X.toCrypto),
    r.respond X.toFormats welcome ephemeral = .ok (session, resp)

/-- Silence, or a response to where the init came from. -/
def Responds (X : Externals) (src : SocketAddr) (out : Outgoing) : Prop :=
  out = [] ∨ ∃ resp, IsResponse X resp ∧ out = [(src, resp)]

namespace ServerCore

def Answered (s : ServerCore X) : Prop :=
  ∀ id cache, s.answer id = some cache → IsResponse X cache.resp

variable {s s' : ServerCore X}

theorem Aside.answered (h : Aside s s') (hs : s.Answered) : s'.Answered :=
  fun id cache hcache => hs id cache (h.answers id cache hcache)

theorem Answered.of_members (hmembers : s'.members = s.members) (hs : s.Answered) :
    s'.Answered := by
  intro id cache hcache
  unfold answer at hcache
  rw [hmembers] at hcache
  exact hs id cache hcache

theorem answer_seat (s : ServerCore X) (id id' : MemberId) (m : Member X) :
    (s.seat id m).answer id' = if id = id' then m.respCache else s.answer id' := by
  show (s.members.insert id m)[id']?.bind Member.respCache = _
  rw [ExtTreeMap.getElem?_insert]
  by_cases hid : id = id'
  · rw [if_pos hid, if_pos (Std.LawfulEqCmp.compare_eq_iff_eq.mpr hid)]
    rfl
  · rw [if_neg hid, if_neg (mt Std.LawfulEqCmp.compare_eq_iff_eq.mp hid)]
    rfl

theorem Aside.greet (s : ServerCore X) (id : MemberId) : Aside s (s.greet id) := by
  have hqueued : ∀ (t : ServerCore X) (P : Prop) [Decidable P] (msg : ControlMsg),
      Aside t (if P then t else t.queue id msg) := by
    intro t P _ msg
    split_ifs
    · exact .refl t
    · exact .queue t id msg
  simp only [ServerCore.greet]
  have hstream := hqueued s (s.streamStatus.isEmpty = true) (.streamStatus s.streamStatus)
  generalize (if s.streamStatus.isEmpty then s
    else s.queue id (.streamStatus s.streamStatus)) = t at hstream ⊢
  refine hstream.trans ?_
  split
  · exact hqueued t _ _
  · exact (Aside.queue t id _).trans (hqueued _ _ _)

theorem Aside.welcomed (s : ServerCore X) (nowMs : UInt64) (src : SocketAddr) (token : Token)
    (session : Protocol.Session X.toCrypto) (cache : RespCache)
    (media : Option X.Encoder × Option X.Decoder) :
    Aside (s.seat token.memberId (Member.join s.members[token.memberId]? nowMs src token session
      cache media.1 media.2)) (s.welcomed nowMs src token session cache media) := by
  have hlisted : ∀ t : ServerCore X, Aside t t.queueRoster := fun t => .of_eq rfl rfl
  exact ((((Aside.refl _).emit _).trans (hlisted _)).trans (.greet _ _)).trans
    (.noteMusicianCount _)

theorem Aside.ensureBcastEncoder {role : Role} (h : s.ensureBcastEncoder role = some s') :
    Aside s s' := by
  unfold ServerCore.ensureBcastEncoder at h
  split_ifs at h
  · obtain ⟨encoder, -, rfl⟩ := Option.map_eq_some_iff.mp h
    exact .of_eq rfl rfl
  · obtain rfl := Option.some.inj h
    exact .refl s

theorem Aside.violationAvailable (s : ServerCore X) (nowMs : UInt64) (id : MemberId) :
    Aside s (s.violationAvailable nowMs id).1 := by
  simp only [ServerCore.violationAvailable]
  split
  · exact .refl s
  · exact .update s id fun _ _ => .of_eq rfl

theorem takeSeat_spec (s : ServerCore X) (nowMs : UInt64) (src : SocketAddr) (token : Token)
    (responder : Responder X.toCrypto) (initHash : Digest) (ephemeral : Bytes) :
    (s.takeSeat nowMs src token responder initHash ephemeral).1.gates = s.gates ∧
      (s.Answered → (s.takeSeat nowMs src token responder initHash ephemeral).1.Answered) ∧
      Responds X src (s.takeSeat nowMs src token responder initHash ephemeral).2 := by
  unfold takeSeat
  split
  · exact ⟨rfl, id, .inl rfl⟩
  · rename_i t ht
    have hencoder := Aside.ensureBcastEncoder ht
    split
    · rename_i media session resp hmedia hrespond
      have hresp : IsResponse X resp := ⟨responder, _, ephemeral, session, hrespond⟩
      have hwelcomed := Aside.welcomed t nowMs src token session
        { initHash, resp, atMs := nowMs } media
      refine ⟨hwelcomed.gates.trans hencoder.gates, fun hs => hwelcomed.answered ?_,
        .inr ⟨resp, hresp, rfl⟩⟩
      intro id cache hcache
      rw [answer_seat] at hcache
      split_ifs at hcache with hid
      · obtain rfl := Option.some.inj hcache
        exact hresp
      · exact hencoder.answered hs id cache hcache
    · exact ⟨hencoder.gates, hencoder.answered, .inl rfl⟩

theorem liveAnswer_spec (hs : s.Answered) {nowMs : UInt64} {src : SocketAddr} {id : MemberId}
    {initHash : Digest} {out : Outgoing} (h : s.liveAnswer nowMs src id initHash = some out) :
    Responds X src out := by
  unfold liveAnswer at h
  split at h
  · cases h
  · rename_i m hm
    split at h
    · split at h
      · rename_i cache hcache
        obtain rfl := Option.some.inj h
        have hstored : s.answer id = some cache := by
          unfold answer
          rw [hm]
          exact (Option.filter_eq_some_iff.mp hcache).1
        exact .inr ⟨cache.resp, hs id cache hstored, rfl⟩
      · split at h
        · obtain rfl := Option.some.inj h
          exact .inl rfl
        · cases h
    · cases h

theorem Answered.takeRejectTurn (hs : s.Answered) (nowMs : UInt64) (src : SocketAddr) :
    (s.takeRejectTurn nowMs src).1.Answered := by
  refine hs.of_members ?_
  simp only [ServerCore.takeRejectTurn]
  split_ifs <;> rfl

theorem Answered.versionReject (hs : s.Answered) (nowMs : UInt64) (src : SocketAddr)
    (theirs : UInt16) (noise initPacket : Bytes) :
    (s.versionReject nowMs src theirs noise initPacket).1.Answered := by
  simp only [ServerCore.versionReject]
  split_ifs
  · exact hs
  · exact hs.takeRejectTurn nowMs src
  · exact hs.takeRejectTurn nowMs src

theorem Answered.capacityReject (hs : s.Answered) (nowMs : UInt64) (src : SocketAddr)
    (responder : Responder X.toCrypto) (initPacket : Bytes) :
    (s.capacityReject nowMs src responder initPacket).1.Answered := by
  simp only [ServerCore.capacityReject]
  split_ifs <;> exact hs.takeRejectTurn nowMs src

theorem Answered.cookieChallenge (hs : s.Answered) (nowMs : UInt64) (src : SocketAddr)
    (initPacket : Bytes) : (s.cookieChallenge nowMs src initPacket).1.Answered := by
  refine hs.of_members ?_
  simp only [ServerCore.cookieChallenge]
  split_ifs <;> rfl

theorem Answered.initBudgetTake (hs : s.Answered) (nowMs : UInt64) (src : SocketAddr) :
    (s.initBudgetTake nowMs src).1.Answered := by
  refine hs.of_members ?_
  simp only [ServerCore.initBudgetTake]
  split_ifs <;> rfl

theorem Answered.admitToken (hs : s.Answered) (nowMs : UInt64) (src : SocketAddr)
    (noise ephemeral : Bytes) (token : Token) (responder : Responder X.toCrypto) :
    (s.admitToken nowMs src noise ephemeral token responder).1.Answered := by
  have havailable := (Aside.violationAvailable s nowMs token.memberId).answered hs
  simp only [ServerCore.admitToken]
  split
  · exact hs
  · split
    · exact havailable
    · split
      · exact havailable
      · split
        · exact havailable.capacityReject nowMs src responder _
        · exact (takeSeat_spec _ nowMs src token responder _ ephemeral).2.1 havailable

theorem Answered.admitInit (hs : s.Answered) (nowMs nowUnix : UInt64) (src : SocketAddr)
    (noise ephemeral : Bytes) : (s.admitInit nowMs nowUnix src noise ephemeral).1.Answered := by
  have hbudget := hs.initBudgetTake nowMs src
  simp only [ServerCore.admitInit]
  generalize s.initBudgetTake nowMs src = r at hbudget ⊢
  split
  · exact hbudget
  · have hread : { r.1 with initReads := r.1.initReads + 1 }.Answered := hbudget.of_members rfl
    split
    · exact hread
    · split
      · exact hread
      · exact hread.admitToken nowMs src noise ephemeral _ _

theorem Answered.handleDatagram (hs : s.Answered) (nowMs nowUnix : UInt64) (src : SocketAddr)
    (data ephemeral : Bytes) :
    (s.handleDatagram nowMs nowUnix src data ephemeral).1.Answered := by
  have hcookie : (s.cookieRequired nowMs).1.Answered := hs.of_members rfl
  unfold ServerCore.handleDatagram
  split
  · split
    · exact hs.versionReject nowMs src _ _ data
    · simp only
      split
      · exact hcookie.cookieChallenge nowMs src data
      · exact hcookie.admitInit nowMs nowUnix src _ ephemeral
  · simp only
    split
    · exact hcookie.admitInit nowMs nowUnix src _ ephemeral
    · exact hcookie
  · exact (Aside.handleTransport s nowMs src _ _ _).answered hs
  · exact hs

theorem Answered.step (hs : s.Answered) (c : Call) : (s.step c).Answered := by
  cases c with
  | handleDatagram nowMs nowUnix src data ephemeral =>
    exact hs.handleDatagram nowMs nowUnix src data ephemeral
  | _ => exact (Aside.call s (by rintro _ _ _ _ _ ⟨⟩)).answered hs

theorem answered_start (cfg : ServerConfig) (logTail : Option LogTail) (jtis : List TokenId) :
    (start X cfg logTail jtis).Answered := by
  intro id cache hcache
  have hnone : (start X cfg logTail jtis).members[id]? = none := ExtTreeMap.getElem?_empty
  unfold answer at hcache
  rw [hnone] at hcache
  exact absurd hcache.symm (Option.some_ne_none cache)

def authentic (s : ServerCore X) (nowMs : UInt64) (src : SocketAddr) (data : Bytes) : Bool :=
  match Wire.parse data with
  | .ok (.transport id counter ciphertext) =>
    (s.openTransport nowMs src id counter ciphertext).2.isSome
  | _ => false

end ServerCore

/-! ## Lengths -/

/-- The two messages of Noise IK: an ephemeral key of 32 bytes each, in the first the
static key sealed, and the payload sealed, at 16 bytes a seal. -/
structure NoiseLengths (X : Externals) : Prop where
  init : ∀ priv prologue noise hs payload,
    X.readMessage priv prologue noise = some (hs, payload) →
      noise.length = 32 + (32 + 16) + (payload.length + 16)
  response : ∀ hs payload ephemeral hs' msg,
    X.writeMessage hs payload ephemeral = some (hs', msg) →
      msg.length = 32 + (payload.length + 16)
  mac : ∀ n key data, (X.blake2sMac n key data).length = n
  sealed : ∀ key nonce plain aad, (X.xchachaSeal key nonce plain aad).length = plain.length + 16
  welcome : X.welcome.Sized fun w => varintLen w.memberId.toNat + varintLen w.sampleClock.toNat

def responseBytes : ℕ := 1 + 32 + (3 + 10 + 16)

theorem IsResponse.length_le (hX : NoiseLengths X) {resp : Bytes} (h : IsResponse X resp) :
    resp.length ≤ responseBytes := by
  obtain ⟨r, welcome, ephemeral, session, hrespond⟩ := h
  unfold Responder.respond at hrespond
  split at hrespond
  · cases hrespond
  · rename_i hs msg hwrite
    split at hrespond
    · cases hrespond
    · have hmsg := hX.response _ _ _ _ _ hwrite
      have hid : varintLen welcome.memberId.toNat ≤ 3 :=
        varintLen_le (welcome.memberId.toNat_lt.trans (by decide)) (by decide)
      have hclock : varintLen welcome.sampleClock.toNat ≤ 10 :=
        varintLen_le (welcome.sampleClock.toNat_lt.trans (by decide)) (by decide)
      have hwelcome : (X.welcome.ser welcome).length = varintLen welcome.memberId.toNat +
          varintLen welcome.sampleClock.toNat := hX.welcome welcome
      obtain rfl := (Prod.mk.inj (Except.ok.inj hrespond)).2
      rw [Wire.buildHandshakeResp, List.length_cons, responseBytes]
      omega

namespace ServerCore

/-- At most one datagram, to where the question came from, and of no more bytes. -/
def Reply (src : SocketAddr) (bytes : ℕ) (out : Outgoing) : Prop :=
  out.length ≤ 1 ∧ ∀ p ∈ out, p.1 = src ∧ p.2.length ≤ bytes

variable {s : ServerCore X} {src : SocketAddr} {bytes : ℕ} {nowMs : UInt64}

theorem Reply.nil : Reply src bytes [] := ⟨Nat.zero_le _, fun _ hp => absurd hp List.not_mem_nil⟩

theorem Reply.one {packet : Bytes} (h : packet.length ≤ bytes) : Reply src bytes [(src, packet)] :=
  ⟨le_rfl, fun p hp => by rw [List.mem_singleton.mp hp]; exact ⟨rfl, h⟩⟩

theorem Reply.map {α : Type*} {build : α → Bytes} (h : ∀ key, (build key).length ≤ bytes)
    (key : Option α) : Reply src bytes (key.map fun key => (src, build key)).toList := by
  cases key with
  | none => exact .nil
  | some key => exact .one (h key)

theorem versionReject_reply (hX : NoiseLengths X) (theirs : UInt16) (noise initPacket : Bytes) :
    Reply src initPacket.length (s.versionReject nowMs src theirs noise initPacket).2 := by
  simp only [versionReject]
  split_ifs with hshort
  · exact .nil
  · refine .map (fun key => ?_) _
    rw [rejectMinInitBytes, not_lt] at hshort
    rw [Wire.buildVersionReject, List.length_cons, List.length_append, List.length_append,
      Wire.rejectMac, hX.mac, Wire.u16Le, Wire.u16Le, Codec.length_le,
      Codec.length_le]
    omega
  · exact .nil

theorem capacityReject_reply (hX : NoiseLengths X) (hbytes : responseBytes ≤ bytes)
    (responder : Responder X.toCrypto) (initPacket : Bytes) :
    Reply src bytes (s.capacityReject nowMs src responder initPacket).2 := by
  simp only [capacityReject]
  split_ifs
  · refine .map (fun key => ?_) _
    rw [Wire.buildCapacityReject, List.length_cons, Wire.capacityMac, hX.mac]
    exact le_trans (by decide) hbytes
  · exact .nil

theorem cookieChallenge_reply (hX : NoiseLengths X) (initPacket : Bytes) :
    Reply src initPacket.length (s.cookieChallenge nowMs src initPacket).2 := by
  simp only [cookieChallenge]
  split_ifs with hshort
  · exact .nil
  · refine .one ?_
    rw [challengeMinInitBytes, not_lt] at hshort
    simp only [Wire.buildCookieChallenge, List.length_cons, List.length_append,
      Wire.challengeNonce, Wire.cookieFor, hX.sealed, hX.mac]
    omega
  · exact .nil

theorem reply_of_responds (hX : NoiseLengths X) (hbytes : responseBytes ≤ bytes) {out : Outgoing}
    (h : Responds X src out) : Reply src bytes out := by
  obtain rfl | ⟨resp, hresp, rfl⟩ := h
  · exact .nil
  · exact .one ((hresp.length_le hX).trans hbytes)

theorem admitToken_reply (hX : NoiseLengths X) (hs : s.Answered) (hbytes : responseBytes ≤ bytes)
    (noise ephemeral : Bytes) (token : Token) (responder : Responder X.toCrypto) :
    Reply src bytes (s.admitToken nowMs src noise ephemeral token responder).2 := by
  have havailable := (Aside.violationAvailable s nowMs token.memberId).answered hs
  simp only [admitToken]
  split
  · exact .nil
  · split
    · exact .nil
    · split
      · rename_i out hout
        exact reply_of_responds hX hbytes (liveAnswer_spec havailable hout)
      · split
        · exact capacityReject_reply hX hbytes responder _
        · exact reply_of_responds hX hbytes (takeSeat_spec _ nowMs src token responder _ _).2.2

theorem admitInit_reply (hX : NoiseLengths X) (hs : s.Answered) {nowUnix : UInt64}
    {noise ephemeral : Bytes} (hbytes : noise.length ≤ bytes) :
    Reply src bytes (s.admitInit nowMs nowUnix src noise ephemeral).2 := by
  have hbudget := hs.initBudgetTake nowMs src
  simp only [admitInit]
  generalize s.initBudgetTake nowMs src = r at hbudget ⊢
  split
  · exact .nil
  · have hread : { r.1 with initReads := r.1.initReads + 1 }.Answered := hbudget.of_members rfl
    split
    · exact .nil
    · rename_i hp responder hinit
      split
      · exact .nil
      · refine admitToken_reply hX hread ?_ noise ephemeral hp.token responder
        unfold Responder.readInit at hinit
        rw [if_neg (not_not.mpr rfl)] at hinit
        split at hinit
        · cases hinit
        · rename_i hs' payload hmessage
          have hlength := hX.init _ _ _ _ _ hmessage
          rw [responseBytes]
          omega

end ServerCore

theorem length_of_handshakeInit {data noise : Bytes} {version : UInt16}
    (h : Wire.parse data = .ok (.handshakeInit version noise)) : noise.length ≤ data.length := by
  unfold Wire.parse at h
  split at h
  · cases h
  · split_ifs at h <;> cases h
    rw [List.length_drop, List.length_cons]
    omega

theorem length_of_cookiedInit {data cookie noise : Bytes} {version : UInt16}
    (h : Wire.parse data = .ok (.cookiedInit cookie version noise)) :
    noise.length ≤ data.length := by
  unfold Wire.parse at h
  split at h
  · cases h
  · split_ifs at h <;> cases h
    rw [List.length_drop, List.length_cons]
    omega

namespace ServerCore

theorem handleTransport_silent {s : ServerCore X} {nowMs : UInt64} {src : SocketAddr}
    {id : MemberId} {counter : UInt64} {ciphertext : Bytes}
    (h : (s.openTransport nowMs src id counter ciphertext).2 = none) :
    (s.handleTransport nowMs src id counter ciphertext).2 = [] := by
  unfold handleTransport
  generalize s.openTransport nowMs src id counter ciphertext = r at h
  obtain ⟨t, opened⟩ := r
  obtain rfl : opened = none := h
  rfl

theorem Answered.reply (hX : NoiseLengths X) {s : ServerCore X} (hs : s.Answered)
    (nowMs nowUnix : UInt64) (src : SocketAddr) (data ephemeral : Bytes)
    (hdata : s.authentic nowMs src data = false) :
    Reply src data.length (s.handleDatagram nowMs nowUnix src data ephemeral).2 := by
  have hcookie : (s.cookieRequired nowMs).1.Answered := hs.of_members rfl
  unfold authentic at hdata
  unfold ServerCore.handleDatagram
  split
  · rename_i version noise hparse
    have hnoise := length_of_handshakeInit hparse
    split
    · exact versionReject_reply hX version noise data
    · simp only
      split
      · exact cookieChallenge_reply hX data
      · exact admitInit_reply hX hcookie hnoise
  · rename_i cookie version noise hparse
    have hnoise := length_of_cookiedInit hparse
    simp only
    split
    · exact admitInit_reply hX hcookie hnoise
    · exact .nil
  · rename_i id counter ciphertext hparse
    rw [hparse] at hdata
    rw [handleTransport_silent (Option.not_isSome_iff_eq_none.mp (Bool.eq_false_iff.mp hdata))]
    exact .nil
  · exact .nil

/-- Nobody who is not a member gets more out of the server than they sent to it. -/
theorem no_amplification (hX : NoiseLengths X) (cfg : ServerConfig) (logTail : Option LogTail)
    (jtis : List TokenId) (calls : List Call) (nowMs nowUnix : UInt64) (src : SocketAddr)
    (data ephemeral : Bytes)
    (hdata : (Runs.run step (start X cfg logTail jtis) calls).authentic nowMs src data = false) :
    let out := ((Runs.run step (start X cfg logTail jtis) calls).handleDatagram nowMs nowUnix src
      data ephemeral).2
    out.length ≤ 1 ∧ ∀ p ∈ out, p.1 = src ∧ p.2.length ≤ data.length :=
  (Runs.run_invariant (fun _ c hs => hs.step c) (answered_start cfg logTail jtis) calls).reply hX
    nowMs nowUnix src data ephemeral hdata

def framed : Externals :=
  { plaintext with
    blake2sMac := fun n _ data => data.takeD n 0
    xchachaSeal := fun _ _ plain _ => plain ++ List.replicate 16 0
    readMessage := fun _ _ noise =>
      if noise.length < 96 then none else some ((), noise.drop 96)
    writeMessage := fun _ payload _ => some ((), List.replicate 48 0 ++ payload) }

theorem framed_lengths : NoiseLengths framed where
  init := by
    intro priv prologue noise hs payload h
    have hread : (if noise.length < 96 then none else some ((), noise.drop 96)) =
      some (hs, payload) := h
    split_ifs at hread with hshort
    obtain rfl := (Prod.mk.inj (Option.some.inj hread)).2
    rw [List.length_drop]
    omega
  response := by
    intro hs payload ephemeral hs' msg h
    have hwritten : some ((), List.replicate 48 0 ++ payload) = some (hs', msg) := h
    obtain rfl := (Prod.mk.inj (Option.some.inj hwritten)).2
    rw [List.length_append, List.length_replicate]
    omega
  mac := fun n _ data => List.takeD_length n data 0
  sealed := fun _ _ plain _ => by
    show (plain ++ List.replicate 16 0).length = plain.length + 16
    rw [List.length_append, List.length_replicate]
  welcome := (Codec.u16_sized.pair Codec.u64_sized).via _ _

theorem no_amplification_join :
    let data := Wire.buildHandshakeInit protocolVersion
      (List.replicate 96 0 ++ Plaintext.token.ser (Plaintext.tokenOf 1 .musician))
    let out := ((start framed Plaintext.config none []).handleDatagram 0 0 (Plaintext.addrOf 1)
      data []).2
    out ≠ [] ∧ out.length ≤ 1 ∧ ∀ p ∈ out, p.1 = Plaintext.addrOf 1 ∧ p.2.length ≤ data.length :=
  ⟨by decide +kernel, no_amplification framed_lengths Plaintext.config none [] [] 0 0
    (Plaintext.addrOf 1) _ [] (by decide +kernel)⟩

end ServerCore
end JamStream.Session
