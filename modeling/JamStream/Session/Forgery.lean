import JamStream.Session.Client
import JamStream.Session.Plaintext

/-! What a stranger can send a client. Each kind of datagram is verified before it touches
anything, so one that fails its check leaves the client as it was, and once a client has
joined there is only one kind left that it listens to. -/

namespace JamStream.Session
open Protocol Engine Foundations
variable {X : Externals} {N : ClientCrypto X.toCrypto}

namespace Client

/-- The session takes the packet: it decrypts, and its counter is new. -/
def opens (c : Client N) (counter : UInt64) (ciphertext : Bytes) : Prop :=
  ∃ session plain, c.session = some session ∧
    (session.openPacket counter ciphertext).2 = .ok plain

/-- The check that belongs to a packet fails. What a client never receives, it has no check
for. -/
def Refuses (c : Client N) : Wire.Packet → Prop
  | .handshakeResp noise => ∀ i, c.initiator = some i → (N.readMessage i.hs noise).2 = none
  | .versionReject ours theirs mac => ∀ key, c.rejectKey = some key →
      Wire.verifyVersionReject X.toCrypto key ours theirs mac c.initPacket = false
  | .capacityReject mac => ∀ key, c.rejectKey = some key →
      Wire.verifyCapacityReject X.toCrypto key mac c.initPacket = false
  | .transport _ counter ciphertext => ¬ c.opens counter ciphertext
  | .cookieChallenge nonce sealed =>
      Wire.openCookieChallenge X.toCrypto N c.cookieReplyKey nonce sealed c.initPacket = none
  | .handshakeInit .. | .cookiedInit .. => True

/-- A datagram that is no packet, or whose packet fails its check. -/
def Forged (c : Client N) (data : Bytes) : Prop :=
  ∀ packet, Wire.parse data = .ok packet → c.Refuses packet

def Authentic (c : Client N) (data : Bytes) : Prop :=
  ∃ member counter ciphertext, Wire.parse data = .ok (.transport member counter ciphertext) ∧
    c.opens counter ciphertext

theorem any_eq_false {α : Type} {p : α → Bool} {o : Option α} (h : ∀ a, o = some a → p a = false) :
    o.any p = false := by
  cases o with
  | none => rfl
  | some a => exact h a rfl

theorem accept_false {w : ReplayWindow} {counter : UInt64} (h : (w.accept counter).2 = false) :
    (w.accept counter).1 = w := by
  unfold ReplayWindow.accept at h ⊢
  simp only at h ⊢
  split_ifs at h ⊢ <;> rfl

theorem openPacket_error {s : Protocol.Session X.toCrypto} {counter : UInt64} {ciphertext : Bytes}
    {e : Error} (h : (s.openPacket counter ciphertext).2 = .error e) :
    (s.openPacket counter ciphertext).1 = s := by
  unfold Protocol.Session.openPacket at h ⊢
  cases hread : X.readTransport s.ts counter ciphertext with
  | none => rfl
  | some plain =>
    rw [hread] at h
    cases haccept : (s.replay.accept counter).2 with
    | true => simp [haccept] at h
    | false => simp [accept_false haccept]

theorem handshakeResp_refused (hrestores : N.Restores) {c : Client N} {noise : Bytes}
    (h : c.Refuses (.handshakeResp noise)) (nowMs : UInt64) : c.handshakeResp nowMs noise = c := by
  unfold handshakeResp
  split
  · cases hinit : c.initiator with
    | none => rfl
    | some i =>
      simp only [Initiator.finish_of_refused hrestores X.toFormats i (h i hinit)]
      rw [← hinit]
  · rfl

theorem versionReject_refused {c : Client N} {ours theirs : UInt16} {mac : Bytes}
    (h : c.Refuses (.versionReject ours theirs mac)) (nowMs : UInt64) :
    c.versionReject nowMs ours theirs mac = c := by
  have hany := any_eq_false h
  unfold versionReject
  rw [if_neg]
  simp [hany]

theorem capacityReject_refused {c : Client N} {mac : Bytes}
    (h : c.Refuses (.capacityReject mac)) (nowMs : UInt64) : c.capacityReject nowMs mac = c := by
  have hany := any_eq_false h
  unfold capacityReject
  rw [if_neg]
  simp [hany]

theorem transport_refused {c : Client N} {counter : UInt64} {ciphertext : Bytes}
    (h : ¬ c.opens counter ciphertext) (nowMs : UInt64) :
    c.transport nowMs counter ciphertext = (c, []) := by
  unfold transport
  cases hsession : c.session with
  | none => rfl
  | some session =>
    cases hopen : (session.openPacket counter ciphertext).2 with
    | ok plain => exact absurd ⟨session, plain, hsession, hopen⟩ h
    | error e =>
      have hsame : session.openPacket counter ciphertext = (session, .error e) :=
        Prod.ext (openPacket_error hopen) hopen
      simp only [hsame, ← hsession]

theorem cookieChallenge_refused {c : Client N} {nonce sealed : Bytes}
    (h : c.Refuses (.cookieChallenge nonce sealed)) (nowMs : UInt64) :
    c.cookieChallenge nowMs nonce sealed = (c, []) := by
  have hopen : Wire.openCookieChallenge X.toCrypto N c.cookieReplyKey nonce sealed c.initPacket =
    none := h
  unfold cookieChallenge
  rw [hopen]
  split <;> rfl

theorem handleDatagram_forged (hrestores : N.Restores) {c : Client N} {data : Bytes}
    (h : c.Forged data) (nowMs : UInt64) : c.handleDatagram nowMs data = (c, []) := by
  unfold handleDatagram
  cases hparse : Wire.parse data with
  | error e => rfl
  | ok packet =>
    have hrefuses := h packet hparse
    cases packet with
    | handshakeInit version noise => rfl
    | handshakeResp noise => exact congrArg (·, []) (handshakeResp_refused hrestores hrefuses nowMs)
    | transport member counter ciphertext => exact transport_refused hrefuses nowMs
    | versionReject ours theirs mac => exact congrArg (·, []) (versionReject_refused hrefuses nowMs)
    | capacityReject mac => exact congrArg (·, []) (capacityReject_refused hrefuses nowMs)
    | cookieChallenge nonce sealed => exact cookieChallenge_refused hrefuses nowMs
    | cookiedInit cookie version noise => rfl

theorem handleDatagram_joined {c : Client N} (hjoined : c.core.state = .joined) {data : Bytes}
    (h : ¬ c.Authentic data) (nowMs : UInt64) : c.handleDatagram nowMs data = (c, []) := by
  unfold handleDatagram
  cases hparse : Wire.parse data with
  | error e => rfl
  | ok packet =>
    cases packet with
    | handshakeInit version noise => rfl
    | handshakeResp noise => simp [handshakeResp, awaits, hjoined]
    | transport member counter ciphertext =>
      exact transport_refused (fun hopens => h ⟨member, counter, ciphertext, hparse, hopens⟩) nowMs
    | versionReject ours theirs mac => simp [versionReject, hjoined]
    | capacityReject mac => simp [capacityReject, hjoined]
    | cookieChallenge nonce sealed => simp [cookieChallenge, hjoined]
    | cookiedInit cookie version noise => rfl

/-- A datagram that fails the check that belongs to it changes nothing and draws no answer,
and one that has joined takes nothing but what its session opens. -/
theorem forged_unnoticed (hrestores : N.Restores) (c : Client N) (nowMs : UInt64) (data : Bytes) :
    (c.Forged data → c.handleDatagram nowMs data = (c, [])) ∧
      (c.core.state = .joined → ¬ c.Authentic data → c.handleDatagram nowMs data = (c, [])) :=
  ⟨fun h => handleDatagram_forged hrestores h nowMs,
    fun hjoined h => handleDatagram_joined hjoined h nowMs⟩

/-- Reads whatever is not empty, and opens a cookie whose tag is zero. -/
def toyCrypto : ClientCrypto plaintext.toCrypto where
  InitiatorState := Bool
  readMessage hs noise := if noise.isEmpty then (hs, none) else (true, some noise)
  intoTransport _ := some ()
  xchachaOpen _ _ sealed _ :=
    if sealed.drop 16 = List.replicate 16 0 then some (sealed.take 16) else none

theorem toyCrypto_restores : toyCrypto.Restores := by
  intro hs noise h
  change (if noise.isEmpty then (hs, none) else (true, some noise)).1 = hs
  change (if noise.isEmpty then (hs, none) else (true, some noise)).2 = none at h
  split_ifs at h ⊢
  rfl

def hopeful : Client toyCrypto :=
  .connect [] (⟨false, some 0⟩, Plaintext.initOf 1 .musician) 0

def fullHouse : Bytes := Wire.typeCapacityReject :: List.replicate 16 255

theorem forged_unnoticed_fullHouse : hopeful.handleDatagram 5 fullHouse = (hopeful, []) :=
  (forged_unnoticed toyCrypto_restores hopeful 5 fullHouse).1 (by
    intro packet hpacket
    have hparse : Wire.parse fullHouse = .ok (.capacityReject (List.replicate 16 255)) := by decide
    obtain rfl : Wire.Packet.capacityReject (List.replicate 16 255) = packet :=
      Except.ok.inj (hparse.symm.trans hpacket)
    intro key hkey
    obtain rfl : (0 : Digest) = key := Option.some.inj hkey
    decide +kernel)

end Client
end JamStream.Session
