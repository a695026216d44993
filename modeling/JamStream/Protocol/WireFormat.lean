import JamStream.Protocol.Initiator
import JamStream.Session.Plaintext

/-! One encoding for each datagram: what the builders lay out parses to the same fields, and
what parses lays out to the same bytes. -/

namespace JamStream.Protocol
open Foundations Codec

namespace Wire

theorem leNat_lt (k : ℕ) (bs : Bytes) : leNat k bs < 256 ^ k := by
  induction k generalizing bs with
  | zero => exact Nat.one_pos
  | succ k ih =>
    rcases bs with _ | ⟨b, bs⟩
    · exact Nat.pow_pos (by decide)
    · have hrest := ih bs
      have hb := b.toNat_lt
      show b.toNat + 256 * leNat k bs < _
      rw [pow_succ]
      omega

theorem leNat_le {k n : ℕ} (hn : n < 256 ^ k) (rest : Bytes) : leNat k (le k n ++ rest) = n := by
  induction k generalizing n with
  | zero =>
    have hzero : n = 0 := Nat.lt_one_iff.mp hn
    rw [hzero]
    rfl
  | succ k ih =>
    have hdiv : n / 256 < 256 ^ k := by
      rw [Nat.div_lt_iff_lt_mul (by norm_num), ← pow_succ]
      exact hn
    have hb : (UInt8.ofNat (n % 256)).toNat = n % 256 := by
      rw [UInt8.toNat_ofNat']
      omega
    show (UInt8.ofNat (n % 256)).toNat + 256 * leNat k (le k (n / 256) ++ rest) = n
    rw [hb, ih hdiv]
    omega

theorem le_leNat {k : ℕ} {bs : Bytes} (hlength : k ≤ bs.length) : le k (leNat k bs) = bs.take k := by
  induction k generalizing bs with
  | zero => rfl
  | succ k ih =>
    rcases bs with _ | ⟨b, bs⟩
    · exact absurd hlength (Nat.not_succ_le_zero k)
    · have hrest := ih (Nat.le_of_succ_le_succ hlength)
      have hb := b.toNat_lt
      have hmod : (b.toNat + 256 * leNat k bs) % 256 = b.toNat := by omega
      have hdiv : (b.toNat + 256 * leNat k bs) / 256 = leNat k bs := by omega
      show UInt8.ofNat ((b.toNat + 256 * leNat k bs) % 256) ::
        le k ((b.toNat + 256 * leNat k bs) / 256) = b :: bs.take k
      rw [hmod, hdiv, hrest, UInt8.ofNat_toNat]

section fields
variable {bs rest : Bytes}

theorem ofNat_u16Le (n : UInt16) : UInt16.ofNat (leNat 2 (u16Le n ++ rest)) = n := by
  rw [u16Le, leNat_le n.toNat_lt, UInt16.ofNat_toNat]

theorem ofNat_u64Le (n : UInt64) : UInt64.ofNat (leNat 8 (u64Le n ++ rest)) = n := by
  rw [u64Le, leNat_le n.toNat_lt, UInt64.ofNat_toNat]

theorem u16Le_ofNat (hlength : 2 ≤ bs.length) : u16Le (UInt16.ofNat (leNat 2 bs)) = bs.take 2 := by
  rw [u16Le, UInt16.toNat_ofNat', Nat.mod_eq_of_lt (show leNat 2 bs < 2 ^ 16 from leNat_lt 2 bs),
    le_leNat hlength]

theorem u64Le_ofNat (hlength : 8 ≤ bs.length) : u64Le (UInt64.ofNat (leNat 8 bs)) = bs.take 8 := by
  rw [u64Le, UInt64.toNat_ofNat', Nat.mod_eq_of_lt (show leNat 8 bs < 2 ^ 64 from leNat_lt 8 bs),
    le_leNat hlength]

theorem length_u16Le (n : UInt16) : (u16Le n).length = 2 := length_le 2 n.toNat

theorem length_u64Le (n : UInt64) : (u64Le n).length = 8 := length_le 8 n.toNat

theorem drop_u16Le (n : UInt16) : (u16Le n ++ rest).drop 2 = rest := List.drop_left' (length_u16Le n)

theorem drop_u64Le (n : UInt64) : (u64Le n ++ rest).drop 8 = rest := List.drop_left' (length_u64Le n)

theorem take_append_take_drop (i j : ℕ) (bs : Bytes) :
    bs.take i ++ (bs.drop i).take j = bs.take (i + j) := (List.take_add ..).symm

end fields

def buildTransport (member : MemberId) (counter : UInt64) (ciphertext : Bytes) : Bytes :=
  transportHeader member counter ++ ciphertext

namespace Packet

/-- A packet laid out, the arrays of bytes in it as they are. -/
def layout : Packet → Bytes
  | handshakeInit version noise => buildHandshakeInit version noise
  | handshakeResp noise => buildHandshakeResp noise
  | transport member counter ciphertext => buildTransport member counter ciphertext
  | versionReject ours theirs mac => typeVersionReject :: (u16Le ours ++ u16Le theirs ++ mac)
  | capacityReject mac => typeCapacityReject :: mac
  | cookieChallenge nonce «sealed» => typeCookieChallenge :: (nonce ++ «sealed»)
  | cookiedInit cookie version noise => buildCookiedInit cookie version noise

def Sized : Packet → Prop
  | versionReject _ _ mac => mac.length = 16
  | capacityReject mac => mac.length = 16
  | cookieChallenge nonce «sealed» =>
    nonce.length = cookieNonceBytes ∧ «sealed».length = cookieSealedBytes
  | cookiedInit cookie _ _ => cookie.length = cookieBytes
  | _ => True

end Packet

theorem parse_layout {p : Packet} (h : p.Sized) : parse p.layout = .ok p := by
  cases p with
  | handshakeInit version noise =>
    have hlength : ¬(u16Le version ++ noise).length < 2 := by
      rw [List.length_append, length_u16Le]
      omega
    refine (if_neg (t := Except.error Error.malformed) hlength).trans ?_
    rw [ofNat_u16Le, drop_u16Le]
  | handshakeResp noise => rfl
  | transport member counter ciphertext =>
    have hlayout : (Packet.transport member counter ciphertext).layout =
        typeTransport :: (u16Le member ++ (u64Le counter ++ ciphertext)) :=
      congrArg _ (List.append_assoc ..)
    have hlength : ¬(u16Le member ++ (u64Le counter ++ ciphertext)).length < 10 := by
      rw [List.length_append, List.length_append, length_u16Le, length_u64Le]
      omega
    have hdrop : (u16Le member ++ (u64Le counter ++ ciphertext)).drop 10 = ciphertext := by
      rw [show 10 = 2 + 8 from rfl, ← List.drop_drop, drop_u16Le, drop_u64Le]
    rw [hlayout]
    refine (if_neg (t := Except.error Error.malformed) hlength).trans ?_
    rw [ofNat_u16Le, drop_u16Le, ofNat_u64Le, hdrop]
  | versionReject ours theirs mac =>
    have hmac : mac.length = 16 := h
    have hlayout : (Packet.versionReject ours theirs mac).layout =
        typeVersionReject :: (u16Le ours ++ (u16Le theirs ++ mac)) :=
      congrArg _ (List.append_assoc ..)
    have hlength : ¬(u16Le ours ++ (u16Le theirs ++ mac)).length ≠ 20 := by
      rw [List.length_append, List.length_append, length_u16Le, length_u16Le, hmac]
      exact fun h => h rfl
    have hdrop : (u16Le ours ++ (u16Le theirs ++ mac)).drop 4 = mac := by
      rw [show 4 = 2 + 2 from rfl, ← List.drop_drop, drop_u16Le, drop_u16Le]
    rw [hlayout]
    refine (if_neg (t := Except.error Error.malformed) hlength).trans ?_
    rw [ofNat_u16Le, drop_u16Le, ofNat_u16Le, hdrop]
  | capacityReject mac => exact if_neg (not_not.mpr h)
  | cookieChallenge nonce «sealed» =>
    have hlength : ¬(nonce ++ «sealed»).length ≠ cookieNonceBytes + cookieSealedBytes := by
      rw [List.length_append, h.1, h.2]
      exact fun h => h rfl
    refine (if_neg (t := Except.error Error.malformed) hlength).trans ?_
    rw [List.take_left' h.1, List.drop_left' h.1]
  | cookiedInit cookie version noise =>
    have hcookie : cookie.length = cookieBytes := h
    have hlayout : (Packet.cookiedInit cookie version noise).layout =
        typeCookiedInit :: (cookie ++ (u16Le version ++ noise)) :=
      congrArg _ (List.append_assoc ..)
    have hlength : ¬(cookie ++ (u16Le version ++ noise)).length < cookieBytes + 2 := by
      rw [List.length_append, List.length_append, length_u16Le, hcookie]
      omega
    have hdrop : (cookie ++ (u16Le version ++ noise)).drop (cookieBytes + 2) = noise := by
      rw [← List.drop_drop, List.drop_left' hcookie, drop_u16Le]
    rw [hlayout]
    refine (if_neg (t := Except.error Error.malformed) hlength).trans ?_
    rw [List.take_left' hcookie, List.drop_left' hcookie,
      ofNat_u16Le, hdrop]

theorem layout_parse {b : Bytes} {p : Packet} (h : parse b = .ok p) : p.layout = b := by
  rcases b with _ | ⟨tag, rest⟩
  · exact nomatch h
  unfold parse at h
  simp only at h
  split_ifs at h with h1 hshort h2 h3 hshort h4 hlength h5 hlength h6 hlength h7 hshort
  · obtain rfl := Except.ok.inj h
    show typeHandshakeInit :: (u16Le _ ++ rest.drop 2) = _
    rw [u16Le_ofNat (Nat.not_lt.mp hshort), List.take_append_drop, h1]
  · obtain rfl := Except.ok.inj h
    rw [h2]
    rfl
  · obtain rfl := Except.ok.inj h
    have hlength := Nat.not_lt.mp hshort
    show typeTransport :: (u16Le _ ++ u64Le _ ++ rest.drop 10) = _
    rw [u16Le_ofNat (by omega), u64Le_ofNat (by rw [List.length_drop]; omega),
      take_append_take_drop, List.take_append_drop, h3]
  · obtain rfl := Except.ok.inj h
    have hlength := not_not.mp hlength
    show typeVersionReject :: (u16Le _ ++ u16Le _ ++ rest.drop 4) = _
    rw [u16Le_ofNat (by omega), u16Le_ofNat (by rw [List.length_drop]; omega),
      take_append_take_drop, List.take_append_drop, h4]
  · obtain rfl := Except.ok.inj h
    rw [h5]
    rfl
  · obtain rfl := Except.ok.inj h
    show typeCookieChallenge :: (rest.take _ ++ rest.drop _) = _
    rw [List.take_append_drop, h6]
  · obtain rfl := Except.ok.inj h
    have hlength := Nat.not_lt.mp hshort
    show typeCookiedInit :: (rest.take cookieBytes ++ u16Le _ ++ rest.drop (cookieBytes + 2)) = _
    rw [u16Le_ofNat (by rw [List.length_drop]; omega), take_append_take_drop,
      List.take_append_drop, h7]

inductive Built (X : Crypto) : Packet → Bytes → Prop
  | handshakeInit (version : UInt16) (noise : Bytes) :
    Built X (.handshakeInit version noise) (buildHandshakeInit version noise)
  | handshakeResp (noise : Bytes) : Built X (.handshakeResp noise) (buildHandshakeResp noise)
  | transport (member : MemberId) (counter : UInt64) (ciphertext : Bytes) :
    Built X (.transport member counter ciphertext) (buildTransport member counter ciphertext)
  | versionReject (key : Digest) (ours theirs : UInt16) (initPacket : Bytes) :
    Built X (.versionReject ours theirs (rejectMac X key ours theirs initPacket))
      (buildVersionReject X key ours theirs initPacket)
  | capacityReject (key : Digest) (initPacket : Bytes) :
    Built X (.capacityReject (capacityMac X key initPacket)) (buildCapacityReject X key initPacket)
  | cookieChallenge (replyKey key : Digest) (source : IpAddr) (initPacket : Bytes) :
    Built X (.cookieChallenge (challengeNonce X key source initPacket)
        (X.xchachaSeal replyKey (challengeNonce X key source initPacket) (cookieFor X key source)
          initPacket))
      (buildCookieChallenge X replyKey key source initPacket)
  | cookiedInit (cookie : Bytes) (hcookie : cookie.length = cookieBytes) (version : UInt16)
      (noise : Bytes) :
    Built X (.cookiedInit cookie version noise) (buildCookiedInit cookie version noise)

/-- A MAC has the length asked for, and sealing adds a tag of 16 bytes. -/
structure Lengths (X : Crypto) : Prop where
  blake2sMac : ∀ n key data, (X.blake2sMac n key data).length = n
  xchachaSeal : ∀ key nonce plain aad,
    (X.xchachaSeal key nonce plain aad).length = plain.length + 16

theorem Built.layout {X : Crypto} (hX : Lengths X) {p : Packet} {b : Bytes} (h : Built X p b) :
    p.Sized ∧ p.layout = b := by
  cases h with
  | handshakeInit version noise => exact ⟨trivial, rfl⟩
  | handshakeResp noise => exact ⟨trivial, rfl⟩
  | transport member counter ciphertext => exact ⟨trivial, rfl⟩
  | versionReject key ours theirs initPacket => exact ⟨hX.blake2sMac .., rfl⟩
  | capacityReject key initPacket => exact ⟨hX.blake2sMac .., rfl⟩
  | cookieChallenge replyKey key source initPacket =>
    refine ⟨⟨hX.blake2sMac .., ?_⟩, rfl⟩
    rw [hX.xchachaSeal, cookieFor, hX.blake2sMac]
    rfl
  | cookiedInit cookie hcookie version noise => exact ⟨hcookie, rfl⟩

/-- The builders and the parser agree on every field of every packet, and no two datagrams
parse to one packet. -/
theorem one_encoding (X : Crypto) (hX : Lengths X) :
    (∀ p b, Built X p b → parse b = .ok p) ∧ ∀ b p, parse b = .ok p → p.layout = b := by
  constructor
  · intro p b h
    obtain ⟨hsized, hlayout⟩ := h.layout hX
    rw [← hlayout]
    exact parse_layout hsized
  · exact fun b p h => layout_parse h

def plainCrypto : Crypto :=
  { Session.plaintext.toCrypto with
    xchachaSeal := fun _ _ plain _ => plain ++ List.replicate 16 0 }

theorem lengths_plainCrypto : Lengths plainCrypto where
  blake2sMac n _ data := List.takeD_length n data 0
  xchachaSeal _ _ plain _ := by
    show (plain ++ List.replicate 16 0).length = _
    rw [List.length_append, List.length_replicate]

theorem one_encoding_plain :
    (∀ p b, Built plainCrypto p b → parse b = .ok p) ∧ ∀ b p, parse b = .ok p → p.layout = b :=
  one_encoding plainCrypto lengths_plainCrypto

end Wire
end JamStream.Protocol
