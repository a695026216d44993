import JamStream.Client.InvitesPanel
import JamStream.Session.Uplink

/-! A revoke on its way from the host's screen to the server: the panel empties the seat at once,
and the command goes through the worker's channel and the client's control link. -/

namespace JamStream.Client
open Protocol Session Foundations Runs
open Std (ExtTreeMap)

/-- The screen, the commands the worker has not taken, the client with its line to the server,
the tokens the server has handled a revoke of, and those the panel has emptied a seat of. -/
structure HostEnd where
  panel : InvitesPanel
  channel : List Command
  line : Transfer
  revoked : List TokenId
  freed : List TokenId

inductive HostMove
  | press (token : TokenId) (was : Option String) (saves : Except String Unit)
  | mint (role : Role) (jti : TokenId) (saves : Except String Unit)
  | refill (member : MemberId) (jti : TokenId) (saves : Except String Unit)
  | typeName (name : String)
  | order (cmd : Command)
  | work
  | line (e : Transfer.Event)

def revocation : ControlMsg → Option TokenId
  | .revoke jti => some jti
  | _ => none

namespace HostEnd

def init (state : SessionBook) (nowUnix nowMs : UInt64) : HostEnd :=
  { panel := .new state nowUnix, channel := [], line := .start nowMs, revoked := [], freed := [] }

def carry (s : HostEnd) (line : Transfer) : HostEnd :=
  { s with
    line
    revoked := s.revoked ++
      (line.delivered.drop s.line.delivered.length).filterMap revocation }

/-- The command goes before the panel is asked, and what comes of it is not waited for. -/
def press (s : HostEnd) (token : TokenId) (was : Option String) (saves : Except String Unit) :
    HostEnd :=
  { s with
    channel := s.channel ++ [.revoke token]
    panel := (s.panel.revoke token was saves).1
    freed := if (InvitesPanel.freeSeat token was s.panel.seats).isSome then s.freed ++ [token]
      else s.freed }

/-- What a refused command is answered with is only logged. -/
def applyCommand (X : Externals) (picture : Bytes) (s : HostEnd) : HostEnd :=
  match s.channel with
  | [] => s
  | cmd :: rest => { s with channel := rest, line := s.line.step X picture (.command cmd) }

/-- A leave ends the worker, and commands reach the client through the channel only. -/
def step (F : PanelFormats) (X : Externals) (picture : Bytes) (s : HostEnd) : HostMove → HostEnd
  | .press token was saves => s.press token was saves
  | .mint role jti saves => { s with panel := (s.panel.mint F role jti saves).panel }
  | .refill member jti saves => { s with panel := (s.panel.refill F member jti saves).panel }
  | .typeName name => { s with panel := { s.panel with mintName := name } }
  | .order (.leave _) => s
  | .order cmd => { s with channel := s.channel ++ [cmd] }
  | .work => s.applyCommand X picture
  | .line (.command _) => s
  | .line e => s.carry (s.line.step X picture e)

/-- The client's link holds the revoke, or the far end has it and waits for an earlier frame;
the link of a client that is not joined is not served any more. -/
def Holds (line : Transfer) (token : TokenId) : Prop :=
  line.core.state = .joined ∧
    ((∃ p ∈ line.core.link.pending, p.msg = .revoke token) ∨
      ∃ k : UInt64, line.far.outOfOrder[k]? = some (.revoke token))

/-- A seat that was emptied has its revoke handled by the server, held by the link, or still on
its way to the worker; a link has no more sequence numbers than 64 bits have. -/
def Promised (s : HostEnd) : Prop :=
  s.line.core.taken.length ≤ 2 ^ 64 → ∀ token ∈ s.freed,
    token ∈ s.revoked ∨ .revoke token ∈ s.channel ∨ Holds s.line token

def Accepts (core : ClientCore) : Prop :=
  core.state = .joined ∧ core.memberId.isSome = true ∧ core.link.pending.length < maxPending

/-- The worker takes the last revoke of a token there is from the channel while the client can
take it, and the connection is not lost before the server has handled it. -/
def Lands (X : Externals) (s : HostEnd) : HostMove → Prop
  | .work => ∀ token rest, s.channel = .revoke token :: rest → token ∈ s.freed →
    token ∉ s.revoked → .revoke token ∉ rest →
      (s.line.core.state = .joined → .revoke token ∉ s.line.core.taken) → Accepts s.line.core
  | .line e => s.line.Loses X e → ∀ token ∈ s.freed, .revoke token ∉ s.channel →
    .revoke token ∈ s.line.core.taken → token ∈ s.revoked
  | _ => True

structure Sent (X : Externals) (s : HostEnd) : Prop where
  pair : Reachable (Pair.Step X.ctlPacket) Pair.init s.line.pair
  handled : ∀ token, .revoke token ∈ s.line.delivered → token ∈ s.revoked
  freed : ∀ token ∈ s.freed, token ∈ s.revoked ∨ .revoke token ∈ s.channel ∨
    (s.line.core.state = .joined ∧ .revoke token ∈ s.line.core.taken)

variable {F : PanelFormats} {X : Externals} {picture : Bytes} {s : HostEnd}

theorem Sent.promised (hC : X.ctlPacket.Lawful) (h : s.Sent X) : s.Promised := by
  intro hfit token htoken
  rcases h.freed token htoken with hrevoked | hchannel | ⟨hjoined, htaken⟩
  · exact .inl hrevoked
  · exact .inr (.inl hchannel)
  have hinv := Pair.reachable_inv hC h.pair hfit
  obtain ⟨i, hi, hmsg⟩ := List.mem_iff_getElem.mp htaken
  have haccepted : s.line.pair.accepted[i]? = some (.revoke token) :=
    List.getElem?_eq_some_iff.mpr ⟨hi, hmsg⟩
  rcases hinv.covered i hi with (hlt | ⟨k, hk, rfl⟩) | ⟨p, hp, rfl⟩
  · have hlt' : i < s.line.pair.delivered.length := hinv.received ▸ hlt
    have hdelivered := hinv.inOrder i _ (List.getElem?_eq_getElem hlt')
    rw [haccepted] at hdelivered
    refine .inl (h.handled token ?_)
    rw [Option.some.inj hdelivered]
    exact List.getElem_mem hlt'
  · obtain ⟨msg, hbuffered⟩ := (OrderedMap.mem_iff _ k).mp hk
    have hmsg := hinv.buffered k msg hbuffered
    rw [haccepted] at hmsg
    rw [← Option.some.inj hmsg] at hbuffered
    exact .inr (.inr ⟨hjoined, .inr ⟨k, hbuffered⟩⟩)
  · have hmsg := hinv.queued p hp
    rw [haccepted] at hmsg
    exact .inr (.inr ⟨hjoined, .inl ⟨p, hp, (Option.some.inj hmsg).symm⟩⟩)

theorem sent_init (state : SessionBook) (nowUnix nowMs : UInt64) :
    (init state nowUnix nowMs).Sent X where
  pair := .refl
  handled _ h := absurd h List.not_mem_nil
  freed _ h := absurd h List.not_mem_nil

theorem delivered_step (line : Transfer) (e : Transfer.Event) :
    (line.step X picture e).delivered = [] ∨
      line.delivered <+: (line.step X picture e).delivered := by
  cases e with
  | reconnect nowMs => exact .inl rfl
  | farReceive i =>
    right
    simp only [Transfer.step]
    split
    · exact List.prefix_rfl
    · exact List.prefix_append _ _
  | receive nowMs i =>
    right
    simp only [Transfer.step]
    split <;> exact List.prefix_rfl
  | handshakeResp | versionReject | capacityReject | setAvatar | setName | command | media | poll
  | farSend | farPoll =>
    right
    simp only [Transfer.step]
    exact List.prefix_rfl

theorem Sent.carry (h : s.Sent X) {e : Transfer.Event} (hlands : s.Lands X (.line e)) :
    (s.carry (s.line.step X picture e)).Sent X where
  pair := Transfer.pair_step h.pair e
  handled token htoken := by
    have hin : ControlMsg.revoke token ∈ (s.line.step X picture e).delivered := htoken
    rcases delivered_step s.line e with hnone | ⟨new, hnew⟩
    · rw [hnone] at hin
      exact absurd hin List.not_mem_nil
    · rw [← hnew] at hin
      rcases List.mem_append.mp hin with hold | hlater
      · exact List.mem_append_left _ (h.handled token hold)
      · apply List.mem_append_right
        rw [← hnew, List.drop_left]
        exact List.mem_filterMap.mpr ⟨_, hlater, rfl⟩
  freed token htoken := by
    rcases h.freed token htoken with hrevoked | hchannel | ⟨hjoined, htaken⟩
    · exact .inl (List.mem_append_left _ hrevoked)
    · exact .inr (.inl hchannel)
    by_cases hloses : s.line.Loses X e
    · by_cases hchannel : Command.revoke token ∈ s.channel
      · exact .inr (.inl hchannel)
      · exact .inl (List.mem_append_left _ (hlands hloses token htoken hchannel htaken))
    · have hstill : (s.line.step X picture e).core.state = .joined ∧
          s.line.core.taken <+: (s.line.step X picture e).core.taken :=
        Transfer.joined_step hjoined hloses
      exact .inr (.inr ⟨hstill.1, hstill.2.subset htaken⟩)

theorem Sent.applyCommand (h : s.Sent X) (hlands : s.Lands X .work) :
    (s.applyCommand X picture).Sent X := by
  unfold HostEnd.applyCommand
  rcases hchannel : s.channel with _ | ⟨cmd, rest⟩
  · exact h
  have hpair : Reachable (Pair.Step X.ctlPacket) Pair.init
      (s.line.step X picture (.command cmd)).pair := Transfer.pair_step h.pair (.command cmd)
  refine ⟨hpair, h.handled, ?_⟩
  have hstays := ClientCore.Stays.command s.line.core cmd
  intro token htoken
  rcases h.freed token htoken with hrevoked | hwaiting | ⟨hjoined, htaken⟩
  · exact .inl hrevoked
  · rw [hchannel] at hwaiting
    rcases List.mem_cons.mp hwaiting with rfl | hrest
    · by_cases hrevoked : token ∈ s.revoked
      · exact .inl hrevoked
      by_cases hrest : Command.revoke token ∈ rest
      · exact .inr (.inl hrest)
      by_cases htaken : s.line.core.state = .joined ∧ .revoke token ∈ s.line.core.taken
      · obtain ⟨hstill, hbegins⟩ := Transfer.joined_of_stays htaken.1 hstays
        exact .inr (.inr ⟨hstill, hbegins.subset htaken.2⟩)
      obtain ⟨hjoined, hmember, hroom⟩ := hlands token rest hchannel htoken hrevoked hrest
        fun hjoined hin => htaken ⟨hjoined, hin⟩
      obtain ⟨id, hid⟩ := Option.isSome_iff_exists.mp hmember
      refine .inr (.inr ⟨hstays.state.trans hjoined, ?_⟩)
      show ControlMsg.revoke token ∈ (s.line.core.command (.revoke token)).1.taken
      rw [ClientCore.command_taken hjoined hid rfl rfl hroom]
      exact List.mem_append_right _ List.mem_cons_self
    · exact .inr (.inl hrest)
  · obtain ⟨hstill, hbegins⟩ := Transfer.joined_of_stays hjoined hstays
    exact .inr (.inr ⟨hstill, hbegins.subset htaken⟩)

theorem Sent.queue (h : s.Sent X) (panel : InvitesPanel) (cmds : List Command)
    {freed : List TokenId} (hfreed : ∀ token ∈ freed, token ∈ s.freed ∨ .revoke token ∈ cmds) :
    { s with panel, channel := s.channel ++ cmds, freed }.Sent X where
  pair := h.pair
  handled := h.handled
  freed token htoken := by
    rcases hfreed token htoken with hold | hnew
    · rcases h.freed token hold with hrevoked | hchannel | htaken
      · exact .inl hrevoked
      · exact .inr (.inl (List.mem_append_left _ hchannel))
      · exact .inr (.inr htaken)
    · exact .inr (.inl (List.mem_append_right _ hnew))

theorem Sent.step (h : s.Sent X) {m : HostMove} (hlands : s.Lands X m) :
    (s.step F X picture m).Sent X := by
  cases m with
  | press token was saves =>
    apply h.queue
    intro t ht
    split_ifs at ht
    · rcases List.mem_append.mp ht with hold | hnew
      · exact .inl hold
      · rw [List.mem_singleton.mp hnew]
        exact .inr List.mem_cons_self
    · exact .inl ht
  | mint role jti saves => exact ⟨h.pair, h.handled, h.freed⟩
  | refill member jti saves => exact ⟨h.pair, h.handled, h.freed⟩
  | typeName name => exact ⟨h.pair, h.handled, h.freed⟩
  | order cmd =>
    have hqueued : { s with channel := s.channel ++ [cmd] }.Sent X :=
      h.queue s.panel [cmd] fun _ ht => .inl ht
    cases cmd with
    | leave reason => exact h
    | _ => exact hqueued
  | work => exact h.applyCommand hlands
  | line e =>
    cases e with
    | command cmd => exact h
    | _ => exact h.carry hlands

/-- While revokes reach a client that can take them, and stay with a connection until the server
has handled them, what the host is shown as revoked is, or will be. -/
theorem promised_of_lands (F : PanelFormats) (X : Externals) (hC : X.ctlPacket.Lawful)
    (picture : Bytes) (state : SessionBook) (nowUnix nowMs : UInt64) (moves : List HostMove)
    (h : Meets (step F X picture) (Lands X) (init state nowUnix nowMs) moves) :
    Throughout (step F X picture) Promised (init state nowUnix nowMs) moves :=
  (throughout_of_meets (P := Sent X) (fun _ _ h hlands => h.step hlands)
    (sent_init state nowUnix nowMs) h).imp fun _ h => h.promised hC


instance (core : ClientCore) : Decidable (Accepts core) :=
  inferInstanceAs (Decidable (_ ∧ _ ∧ _))

def hanToken : TokenId := 0x09090909090909090909090909090909

def opened : HostEnd :=
  { panel := InvitesPanel.publishTokens
      { state := .guest
        seats := [InvitesPanel.guestSeat]
        tokens := fun _ => none
        mintName := ""
        error := none
        expiresUnix := 4000000000 }
    channel := []
    line := .start 0
    revoked := []
    freed := [] }

theorem init_guest : init .guest 0 0 = opened := by
  rw [init, InvitesPanel.new_guest]
  rfl

def handed : List HostMove :=
  [.line (.handshakeResp 0 0), .press hanToken (some "han") (.ok ()), .work, .line (.poll 1),
    .line (.farReceive 0)]

theorem promised_of_lands_handed :
    (run (step .beta plaintext []) (init .guest 0 0) handed).revoked = [hanToken] ∧
      Throughout (step .beta plaintext []) Promised (init .guest 0 0) handed := by
  have hmeets : Meets (step .beta plaintext []) (Lands plaintext) (init .guest 0 0) handed := by
    rw [init_guest]
    refine ⟨fun h => h.elim, trivial, ?_, ?_, fun h => h.elim, trivial⟩
    · intro _ _ _ _ _ _ _
      decide +kernel
    · rw [Lands, Transfer.Loses]
      decide +kernel
  have hrevoked : (run (step .beta plaintext []) (init .guest 0 0) handed).revoked =
      [hanToken] := by
    rw [init_guest]
    decide +kernel
  exact ⟨hrevoked, promised_of_lands .beta plaintext Postcard.ctlPacket_lawful [] .guest
    0 0 handed hmeets⟩

def pressedLate : List HostMove :=
  [.line (.handshakeResp 0 0), .line (.poll 10000), .press hanToken (some "han") (.ok ()), .work]

/-- The seat is empty, and no revoke is anywhere. -/
theorem promised_pressedLate :
    ¬∀ (F : PanelFormats) (X : Externals), X.ctlPacket.Lawful →
      ∀ (picture : Bytes) (state : SessionBook) (nowUnix nowMs : UInt64) (moves : List HostMove),
        Throughout (step F X picture) Promised (init state nowUnix nowMs) moves := by
  intro h
  have hlast := (h .beta plaintext Postcard.ctlPacket_lawful [] .guest 0 0 pressedLate).last
  rw [init_guest] at hlast
  generalize hs : run (step .beta plaintext []) opened pressedLate = s at hlast
  have hfit : s.line.core.taken.length ≤ 2 ^ 64 := by
    rw [← hs]
    decide +kernel
  have hfreed : hanToken ∈ s.freed := by
    rw [← hs]
    decide +kernel
  rcases hlast hfit hanToken hfreed with hrevoked | hchannel | ⟨hjoined, _⟩
  · rw [← hs] at hrevoked
    exact absurd hrevoked (by decide +kernel)
  · rw [← hs] at hchannel
    exact absurd hchannel (by decide +kernel)
  · rw [← hs] at hjoined
    exact absurd hjoined (by decide +kernel)

end HostEnd
end JamStream.Client
