import JamStream.Foundations.Base64
import JamStream.Session.Control
import JamStream.Session.Plaintext

/-! Invites as text: a link around a blob that accounts for every byte in it. -/

namespace JamStream.Protocol
open Foundations Codec

structure Invite where
  sessionId : SessionId
  /-- Candidates, tried in order. -/
  addresses : List SocketAddr
  serverPk : BitVec 256
  token : Token
  signature : BitVec 512
deriving DecidableEq

namespace Postcard

/-- What is written of a socket address: its family, its octets and its port. -/
def endpoint : Codec (IpAddr × UInt16) where
  ser a :=
    match a.1 with
    | .v4 octets => tagged 0 ((array 4).pair u16) (octets, a.2)
    | .v6 octets => tagged 1 ((array 16).pair u16) (octets, a.2)
  de := readTagged fun
    | 0 => ((array 4).pair u16).read fun p => ⟨.v4 p.1, p.2⟩
    | 1 => ((array 16).pair u16).read fun p => ⟨.v6 p.1, p.2⟩
    | _ => fun _ => none

theorem endpoint_lawful : endpoint.Lawful := by
  rintro ⟨ip, port⟩ rest
  cases ip with
  | v4 octets => exact ((array_lawful 4).pair u16_lawful).case rfl rfl rfl
  | v6 octets => exact ((array_lawful 16).pair u16_lawful).case rfl rfl rfl

def claims : Codec (SessionId × BitVec 256 × Token) :=
  (array 16).pair ((array 32).pair Session.Plaintext.token)

def inviteParts : Codec (SessionId × List (IpAddr × UInt16) × BitVec 256 × Token × BitVec 512) :=
  (array 16).pair (endpoint.list.pair ((array 32).pair
    (Session.Plaintext.token.pair (array 64))))

theorem inviteParts_lawful : inviteParts.Lawful :=
  (array_lawful 16).pair (endpoint_lawful.list.pair ((array_lawful 32).pair
    (Session.Plaintext.token_lawful.pair (array_lawful 64))))

def partsOf (i : Invite) : SessionId × List (IpAddr × UInt16) × BitVec 256 × Token × BitVec 512 :=
  (i.sessionId, i.addresses.map fun a => (a.ip, a.port), i.serverPk, i.token, i.signature)

/-- An address is read with no flow label and no scope. -/
def ofParts (p : SessionId × List (IpAddr × UInt16) × BitVec 256 × Token × BitVec 512) : Invite :=
  ⟨p.1, p.2.1.map fun e => .new e.1 e.2, p.2.2.1, p.2.2.2.1, p.2.2.2.2⟩

def invite : Codec Invite := inviteParts.via partsOf ofParts

theorem partsOf_ofParts (p : SessionId × List (IpAddr × UInt16) × BitVec 256 × Token × BitVec 512) :
    partsOf (ofParts p) = p := by
  have hback : ((fun a : SocketAddr => (a.ip, a.port)) ∘
      fun e : IpAddr × UInt16 => SocketAddr.new e.1 e.2) = id := by
    funext ⟨ip, port⟩
    cases ip <;> rfl
  rw [ofParts, partsOf, List.map_map, hback, List.map_id]

theorem invite_de_ser (i : Invite) : invite.de (invite.ser i) = some (ofParts (partsOf i), []) := by
  simp only [invite, Codec.via, Codec.read]
  rw [inviteParts_lawful.de_ser, Option.map_some]

end Postcard

namespace Invite

def urlPrefix : List Char := "jamstream://join/".toList

def mint (sign : Bytes → Bytes → BitVec 512) (issuer : Bytes) (sessionId : SessionId)
    (addresses : List SocketAddr) (serverPk : BitVec 256) (token : Token) : Invite :=
  { sessionId, addresses, serverPk, token
    signature := sign issuer
      (Transport.ascii "jamstream-token-v1" ++ Postcard.claims.ser (sessionId, serverPk, token)) }

def encode (i : Invite) : String :=
  String.ofList (urlPrefix ++ Base64.encode (Postcard.invite.ser i))

def stripPrefix (raw : List Char) : List Char :=
  if urlPrefix.isPrefixOf raw then raw.drop urlPrefix.length else raw

def decode (text : String) : Except String Invite :=
  match Base64.decode (stripPrefix (Session.trim text).toList) with
  | none => .error "has invalid encoding"
  | some bytes =>
    match Postcard.invite.de bytes with
    | none => .error "is truncated or corrupt"
    | some (invite, rest) =>
      if !rest.isEmpty then .error "is truncated or corrupt"
      else if invite.addresses.isEmpty then .error "has no server address"
      else .ok invite

theorem trim_ofList {text : List Char} (h : ∀ c ∈ text, Session.isWhitespace c = false) :
    Session.trim (String.ofList text) = String.ofList text := by
  have hkeep : ∀ l : List Char, (∀ c ∈ l, Session.isWhitespace c = false) →
      l.dropWhile Session.isWhitespace = l := by
    intro l hl
    rcases l with _ | ⟨c, l⟩
    · rfl
    · rw [List.dropWhile_cons, hl c List.mem_cons_self]
      rfl
  rw [Session.trim, String.toList_ofList, hkeep text h,
    hkeep _ fun c hc => h c (List.mem_reverse.mp hc), List.reverse_reverse]

def blob (text : String) : List Char := stripPrefix (Session.trim text).toList

/-- The link around some bytes. -/
def link (bytes : Bytes) : String := String.ofList (urlPrefix ++ Base64.encode bytes)

theorem blob_link (bytes : Bytes) : blob (link bytes) = Base64.encode bytes := by
  have hblank : ∀ c ∈ urlPrefix ++ Base64.encode bytes, Session.isWhitespace c = false := by
    intro c hc
    rcases List.mem_append.mp hc with hurl | hblob
    · have hall : urlPrefix.all fun c => !Session.isWhitespace c := by decide
      simpa using List.all_eq_true.mp hall c hurl
    · exact Base64.forall_mem_encode (P := fun c => Session.isWhitespace c = false)
        (by decide +kernel) _ c hblob
  rw [blob, link, trim_ofList hblank, String.toList_ofList, stripPrefix,
    if_pos (List.isPrefixOf_iff_prefix.mpr (List.prefix_append _ _)), List.drop_left]

theorem decode_ok {text : String} {i : Invite} : decode text = .ok i ↔
    ∃ bytes, Base64.decode (blob text) = some bytes ∧ Postcard.invite.de bytes = some (i, []) ∧
      i.addresses ≠ [] := by
  rw [decode, blob]
  rcases Base64.decode (stripPrefix (Session.trim text).toList) with _ | bytes
  · exact iff_of_false (fun h => nomatch h) (by rintro ⟨_, h, -⟩; cases h)
  rcases hde : Postcard.invite.de bytes with _ | ⟨i', rest⟩
  · refine iff_of_false (by simp only [hde]; exact fun h => nomatch h) ?_
    rintro ⟨bytes', hbytes, hread, -⟩
    cases hbytes
    rw [hde] at hread
    cases hread
  simp only [hde, Option.some.injEq]
  rcases rest with _ | ⟨b, rest⟩
  · simp only [List.isEmpty_nil, Bool.not_true, Bool.false_eq_true, if_false]
    constructor
    · intro h
      split_ifs at h with hnone
      cases h
      rw [List.isEmpty_iff] at hnone
      exact ⟨bytes, rfl, hde, hnone⟩
    · rintro ⟨bytes', rfl, hread, hsome⟩
      rw [hde] at hread
      cases hread
      rw [if_neg fun hnone => hsome (List.isEmpty_iff.mp hnone)]
  · simp only [List.isEmpty_cons, Bool.not_false, if_true]
    refine iff_of_false (fun h => nomatch h) ?_
    rintro ⟨bytes', rfl, hread, -⟩
    rw [hde] at hread
    cases hread

def unscoped (i : Invite) : Invite :=
  { i with addresses := i.addresses.map fun a => .new a.ip a.port }

theorem ofParts_partsOf (i : Invite) : Postcard.ofParts (Postcard.partsOf i) = i.unscoped := by
  rw [Postcard.partsOf, Postcard.ofParts, List.map_map]
  rfl

theorem unscoped_eq_iff (i : Invite) : i.unscoped = i ↔ ∀ a ∈ i.addresses, a.Unscoped := by
  have hlist : i.unscoped = i ↔
      (i.addresses.map fun a => SocketAddr.new a.ip a.port) = i.addresses := by
    constructor
    · exact congrArg Invite.addresses
    · intro h
      rw [unscoped, h]
  rw [hlist]
  nth_rewrite 2 [← List.map_id i.addresses]
  rw [List.map_inj_left]
  exact forall₂_congr fun a _ => a.new_eq_iff

theorem decode_encode {i : Invite} (haddresses : i.addresses ≠ []) :
    decode i.encode = .ok i.unscoped := by
  have hread := Postcard.invite_de_ser i
  rw [ofParts_partsOf] at hread
  have hsome : i.unscoped.addresses ≠ [] := fun h => haddresses (List.map_eq_nil_iff.mp h)
  refine decode_ok.mpr ⟨Postcard.invite.ser i, ?_, hread, hsome⟩
  have hlink : i.encode = link (Postcard.invite.ser i) := rfl
  rw [hlink, blob_link, Base64.decode_encode]

def beta : Invite where
  sessionId := 0x05050505050505050505050505050505
  addresses := [.v4 0xCB00710A 43210]
  serverPk := 0x0707070707070707070707070707070707070707070707070707070707070707
  token := {
    memberId := 3
    role := .musician
    nameHint := some "ana"
    expiresUnix := 4000000000
    jti := 0x09090909090909090909090909090909 }
  signature := (0x719eaeb59a4eac1698d844f7f649100f996eca2dffd9aa11d350ffaa08a26bf4 : BitVec 256) ++
    (0x9f071be5d2902e70293c393fc28f96b1582321f19e8beaaf3e7970c0482d7801 : BitVec 256)

def betaLink : String :=
  "jamstream://join/BQUFBQUFBQUFBQUFBQUFBQEAywBxCsrRAgcHBwcHBwcHBwcHBwcHBwcHBwcHBwcHBwcHBwcHBwcHAwABA2FuYYDQ"
    ++ "rPMOCQkJCQkJCQkJCQkJCQkJCXGerrWaTqwWmNhE9_ZJEA-Zbsot_9mqEdNQ_6oIomv0nwcb5dKQLnApPDk_wo-WsVgj"
    ++ "IfGei-qvPnlwwEgteAE"

theorem beta_encode : beta.encode = betaLink := by decide +kernel

theorem decode_betaLink : decode betaLink = .ok beta := by
  rw [← beta_encode]
  exact decode_encode (List.cons_ne_nil _ _)

end Invite
end JamStream.Protocol
