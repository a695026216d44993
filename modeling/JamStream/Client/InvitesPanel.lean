import JamStream.Cli.State
import JamStream.Protocol.Invite
import JamStream.Session.Fitting

/-! The host's sheet of seats. What is in each seat, the record of the session and the map of
tokens that the mixer reads are changed together; the record is also written to its file, which
may fail. -/

namespace JamStream.Client
open Protocol Session

structure InviteRecord where
  role : String
  invite : String
deriving DecidableEq

structure SessionBook extends Cli.SessionState where
  address : String
  serverPublicKeyB64 : String
  invites : List InviteRecord
deriving DecidableEq

structure SeatInvite where
  token : TokenId
  encoded : String
deriving DecidableEq

structure Seat where
  member : MemberId
  role : Role
  /-- None once the seat is revoked, which is what makes it free. -/
  invite : Option SeatInvite
  hint : Option String
  was : Option String
deriving DecidableEq

def inviteLabel (role : Role) (member : MemberId) : String :=
  if member = hostMemberId then "host"
  else
    match role with
    | .musician => "musician " ++ toString member.toNat
    | .listener => "listener " ++ toString member.toNat

namespace Seat

def label (s : Seat) : String := inviteLabel s.role s.member

def isFree (s : Seat) : Bool := s.invite.isNone

def holds (token : TokenId) (s : Seat) : Bool := s.invite.any (·.token = token)

end Seat

def cap : Role → ℕ
  | .musician => maxMusicians
  | .listener => maxListeners

def atCapacity : Role → String
  | .musician => "all " ++ toString maxMusicians ++
    " musician seats are taken. Revoke someone to free one."
  | .listener => "all " ++ toString maxListeners ++
    " listener seats are taken. Revoke someone to free one."

/-- Signing under a key, base64 with padding, hex, and the standard library's reading of an
address and its quoted form of a text. -/
structure PanelFormats where
  sign : Bytes → Bytes → BitVec 512
  unBase64 : List Char → Except String Bytes
  unHex : List Char → Option Bytes
  socketAddr : String → Option SocketAddr
  debug : String → String

structure InvitesPanel where
  state : SessionBook
  seats : List Seat
  tokens : MemberId → Option TokenId
  mintName : String
  error : Option String
  expiresUnix : UInt64

namespace InvitesPanel

/-- The seats by member id; equal ids stay as they were. -/
def sorted (seats : List Seat) : List Seat := seats.insertionSort fun a b => a.member ≤ b.member

def tokensOf (seats : List Seat) : MemberId → Option TokenId :=
  seats.foldl (fun map seat => seat.invite.elim map fun invite =>
    Function.update map seat.member (some invite.token)) fun _ => none

def publishTokens (p : InvitesPanel) : InvitesPanel := { p with tokens := tokensOf p.seats }

/-- The seat of a record; one that does not decode has none. -/
def seatOf (record : InviteRecord) : Option (Seat × UInt64) :=
  match Invite.decode record.invite with
  | .error _ => none
  | .ok invite => some ({
      member := invite.token.memberId
      role := invite.token.role
      invite := some { token := invite.token.jti, encoded := record.invite }
      hint := invite.token.nameHint
      was := none }, invite.token.expiresUnix)

def new (state : SessionBook) (nowUnix : UInt64) : InvitesPanel :=
  let found := state.invites.filterMap seatOf
  let expiresUnix := (found.map (·.2)).foldl max 0
  { state
    seats := sorted (found.map (·.1))
    tokens := fun _ => none
    mintName := ""
    error := none
    expiresUnix := if expiresUnix = 0 then nowUnix + 12 * 3600 else expiresUnix : InvitesPanel
    }.publishTokens

def taken (p : InvitesPanel) (role : Role) : ℕ := p.seats.countP fun s => s.role = role && !s.isFree

/-- The record on its way to the file; what comes of it goes with the panel. -/
def persist (saves : Except String Unit) (p : InvitesPanel) : InvitesPanel × Option SessionBook :=
  match saves with
  | .ok _ => (p, some p.state)
  | .error err =>
    ({ p with error := some ("the session file could not be updated: " ++ err) }, none)

def recordHolds (record : InviteRecord) (member : MemberId) (token : TokenId) : Bool :=
  match Invite.decode record.invite with
  | .error _ => false
  | .ok invite => invite.token.memberId = member && invite.token.jti = token

/-- Empties the first seat that holds a token, and says whose it was. -/
def freeSeat (token : TokenId) (was : Option String) : List Seat → Option (MemberId × List Seat)
  | [] => none
  | s :: rest =>
    if s.holds token then some (s.member, { s with invite := none, was } :: rest)
    else (freeSeat token was rest).map fun r => (r.1, s :: r.2)

def revoke (p : InvitesPanel) (token : TokenId) (was : Option String)
    (saves : Except String Unit) : InvitesPanel × Option SessionBook :=
  match freeSeat token was p.seats with
  | none => (p, none)
  | some (member, seats) =>
    let invites := p.state.invites.filter fun r => !recordHolds r member token
    let r := persist saves { p with seats, state := { p.state with invites } }
    (r.1.publishTokens, r.2)

/-- The lowest id above the host's that no live invite holds. -/
def openSeat (p : InvitesPanel) : Option MemberId :=
  (((List.range' 1 65535).map UInt16.ofNat).find? fun id =>
    !p.seats.any fun s => s.member = id && !s.isFree)

def dropLong : List Char → List Char
  | [] => []
  | c :: rest => if maxNameLen < utf8Len (c :: rest) then dropLong rest else c :: rest

def fitName (name : String) : Option String :=
  let fitted := (dropLong (trim name).toList.reverse).reverse
  if fitted.isEmpty then none else some (String.ofList fitted)

def isAsciiWhitespace (c : Char) : Bool := [0x20, 0x09, 0x0A, 0x0C, 0x0D].contains c.toNat

def base64Decode (F : PanelFormats) (text : String) : Except String Bytes :=
  (F.unBase64 (text.toList.filter fun c => !isAsciiWhitespace c)).mapError ("invalid base64: " ++ ·)

def exactly (n : ℕ) (reason : String) (bytes : Bytes) : Except String Bytes :=
  if bytes.length = n then .ok bytes else .error reason

def bitsOf (w : ℕ) (bytes : Bytes) : BitVec w :=
  BitVec.ofNat w (bytes.foldl (fun n b => 256 * n + b.toNat) 0)

def hex16 (F : PanelFormats) (text : String) : Except String SessionId :=
  match F.unHex text.toList with
  | none => .error "session id in the state file is not hex"
  | some bytes => (exactly 16 "session id in the state file has the wrong length" bytes).map
    (bitsOf 128)

/-- The seat as it is minted; a record that its keys or address cannot be read from mints
none. -/
def minted (F : PanelFormats) (p : InvitesPanel) (member : MemberId) (role : Role) (jti : TokenId) :
    Except String Seat := do
  let issuer ← base64Decode F p.state.issuerPrivateKeyB64
  let issuer ← exactly 32 "issuer key in the state file has the wrong length" issuer
  let serverPk ← base64Decode F p.state.serverPublicKeyB64
  let serverPk ← exactly 32 "server key in the state file has the wrong length" serverPk
  let sessionId ← hex16 F p.state.sessionIdHex
  match F.socketAddr p.state.address with
  | none => .error ("state file address " ++ F.debug p.state.address ++ " does not parse")
  | some address =>
    let hint := fitName p.mintName
    let token : Token :=
      { memberId := member, role, nameHint := hint, expiresUnix := p.expiresUnix, jti }
    let invite := Invite.mint F.sign issuer sessionId [address] (bitsOf 256 serverPk) token
    .ok {
      member, role, hint
      invite := some { token := jti, encoded := invite.encode }
      was := none }

/-- Into the first seat with its member id, or as a seat of its own. -/
def putSeat (seat : Seat) (seats : List Seat) : List Seat :=
  if seats.any (·.member = seat.member) then
    seats.modify (seats.findIdx (·.member = seat.member)) fun _ => seat
  else sorted (seats ++ [seat])

structure Mint where
  panel : InvitesPanel
  written : Option SessionBook
  result : Except String Unit

/-- The record has the invite before it is written. -/
def mintInto (F : PanelFormats) (p : InvitesPanel) (member : MemberId) (role : Role) (jti : TokenId)
    (saves : Except String Unit) : Mint :=
  match p.minted F member role jti with
  | .error err => { panel := p, written := none, result := .error err }
  | .ok seat =>
    let record : InviteRecord := { role := seat.label, invite := (seat.invite.map (·.encoded)).getD "" }
    let p := { p with state := { p.state with invites := p.state.invites ++ [record] } }
    match saves with
    | .error err => { panel := p, written := none, result := .error err }
    | .ok _ =>
      { panel := { p with seats := putSeat seat p.seats, mintName := "" }.publishTokens
        written := some p.state
        result := .ok () }

def refused (p : InvitesPanel) (err : String) : Mint :=
  { panel := p, written := none, result := .error err }

def mint (F : PanelFormats) (p : InvitesPanel) (role : Role) (jti : TokenId)
    (saves : Except String Unit) : Mint :=
  if cap role ≤ p.taken role then p.refused (atCapacity role)
  else
    match p.openSeat with
    | none => p.refused "a session has far fewer seats than u16 has values"
    | some member => p.mintInto F member role jti saves

def refill (F : PanelFormats) (p : InvitesPanel) (member : MemberId) (jti : TokenId)
    (saves : Except String Unit) : Mint :=
  match p.seats.find? (·.member = member) with
  | none => p.refused ("seat " ++ toString member.toNat ++ " is not part of this session")
  | some seat =>
    if !seat.isFree then p.refused ("seat " ++ toString member.toNat ++ " is already taken")
    else if cap seat.role ≤ p.taken seat.role then p.refused (atCapacity seat.role)
    else p.mintInto F member seat.role jti saves

end InvitesPanel

/-- The readings of one record; whatever else is read is refused. -/
def PanelFormats.beta : PanelFormats where
  sign _ _ := 0
  unBase64 text :=
    if text = "BwcHBwcHBwcHBwcHBwcHBwcHBwcHBwcHBwcHBwcHBwc=".toList then
      .ok (List.replicate 32 7)
    else .error "Invalid padding"
  unHex text :=
    if text = "05050505050505050505050505050505".toList then some (List.replicate 16 5) else none
  socketAddr text :=
    if text = "203.0.113.10:51820" then some (.v4 0xCB00710A 51820) else none
  debug text := "\"" ++ text ++ "\""

def SessionBook.guest : SessionBook :=
  { sessionIdHex := "05050505050505050505050505050505"
    provider := "local"
    region := "local"
    instanceId := "pid-1"
    createdUnix := 0
    issuerPrivateKeyB64 := "BwcHBwcHBwcHBwcHBwcHBwcHBwcHBwcHBwcHBwcHBwc="
    status := .running
    endedUnix := none
    address := "203.0.113.10:51820"
    serverPublicKeyB64 := "BwcHBwcHBwcHBwcHBwcHBwcHBwcHBwcHBwcHBwcHBwc="
    invites := [{ role := "musician 3", invite := Invite.betaLink }] }

namespace InvitesPanel

theorem seatOf_of_decode {r : InviteRecord} {i : Invite} (h : Invite.decode r.invite = .ok i) :
    seatOf r = some ({
      member := i.token.memberId
      role := i.token.role
      invite := some { token := i.token.jti, encoded := r.invite }
      hint := i.token.nameHint
      was := none }, i.token.expiresUnix) := by
  rw [seatOf, h]

def guestSeat : Seat where
  member := 3
  role := .musician
  invite := some { token := Invite.beta.token.jti, encoded := Invite.betaLink }
  hint := some "ana"
  was := none

theorem new_guest : new .guest 0 = publishTokens
    { state := .guest
      seats := [guestSeat]
      tokens := fun _ => none
      mintName := ""
      error := none
      expiresUnix := 4000000000 } := by
  have hseat : seatOf { role := "musician 3", invite := Invite.betaLink } =
      some (guestSeat, 4000000000) :=
    seatOf_of_decode (r := { role := "musician 3", invite := Invite.betaLink })
      Invite.decode_betaLink
  have hfound : SessionBook.guest.invites.filterMap seatOf = [(guestSeat, 4000000000)] :=
    List.filterMap_cons_some hseat
  rw [new, hfound]
  rfl

end InvitesPanel
end JamStream.Client
