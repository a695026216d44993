import JamStream.Foundations.Shortest
import JamStream.Protocol.Invite

/-! How many texts one invite has. Prefix, digits, tags, texts and the end of the blob all have one
spelling; a padded varint is the way to a second one. -/

namespace JamStream.Protocol
open Foundations Codec

namespace Postcard

def addrCases : UInt32 → Bytes → Bool
  | 0 => pairTidy (array 4) always fewest
  | 1 => pairTidy (array 16) always fewest
  | _ => always

def roleCases (_ : UInt32) : Bytes → Bool := always

def endpointTidy : Bytes → Bool := taggedTidy addrCases

def roleTidy : Bytes → Bool := taggedTidy roleCases

def tokenTidy : Bytes → Bool :=
  pairTidy u16 fewest (pairTidy role roleTidy
    (pairTidy string.option (optionTidy (listTidy u8 always)) (pairTidy u64 fewest always)))

/-- Every varint the reader meets is written in as few groups as its value takes. -/
def inviteTidy : Bytes → Bool :=
  pairTidy (array 16) always (pairTidy endpoint.list (listTidy endpoint endpointTidy)
    (pairTidy (array 32) always (pairTidy Session.Plaintext.token tokenTidy always)))

theorem unit_tells : Codec.unit.Tells always := by
  rintro bs ⟨⟩ rest hde
  cases hde
  exact iff_of_true rfl rfl

theorem zero_index : (0 : UInt8) < 128 := by decide
theorem one_index : (1 : UInt8) < 128 := by decide

theorem endpoint_tells : endpoint.Tells endpointTidy := by
  intro bs a rest hde
  obtain ⟨tag, mid, hindex, hcase⟩ := exists_of_readTagged hde
  split at hcase
  · have hbody : ((array 4).pair u16).Tells (pairTidy (array 4) always fewest) :=
      (array_tells 4).pair (array_lawful 4) u16_tells
    have hwalk : addrCases (0 : UInt8).toUInt32 = pairTidy (array 4) always fewest := rfl
    obtain ⟨b, rfl, htidy⟩ := taggedTidy_iff zero_index hbody hwalk hindex hcase
    exact htidy
  · have hbody : ((array 16).pair u16).Tells (pairTidy (array 16) always fewest) :=
      (array_tells 16).pair (array_lawful 16) u16_tells
    have hwalk : addrCases (1 : UInt8).toUInt32 = pairTidy (array 16) always fewest := rfl
    obtain ⟨b, rfl, htidy⟩ := taggedTidy_iff one_index hbody hwalk hindex hcase
    exact htidy
  · cases hcase

theorem role_tells : role.Tells roleTidy := by
  intro bs r rest hde
  have hwalk : ∀ tag, roleCases tag = always := fun _ => rfl
  obtain ⟨tag, mid, hindex, hcase⟩ := exists_of_readTagged hde
  split at hcase
  · obtain ⟨b, rfl, htidy⟩ := taggedTidy_iff zero_index unit_tells (hwalk _) hindex hcase
    exact htidy
  · obtain ⟨b, rfl, htidy⟩ := taggedTidy_iff one_index unit_tells (hwalk _) hindex hcase
    exact htidy
  · cases hcase

theorem token_tells : Session.Plaintext.token.Tells tokenTidy := by
  have hbody := u16_tells.pair u16_lawful (role_tells.pair role_lawful
    (string_tells.option.pair string_lawful.option (u64_tells.pair u64_lawful (array_tells 16))))
  exact hbody.via fun _ => rfl

theorem invite_tells : invite.Tells inviteTidy := by
  have hbody := (array_tells 16).pair (array_lawful 16)
    ((endpoint_tells.list endpoint_lawful).pair endpoint_lawful.list
      ((array_tells 32).pair (array_lawful 32)
        (token_tells.pair Session.Plaintext.token_lawful (array_tells 64))))
  exact hbody.via partsOf_ofParts

def paddedInvite (i : Invite) : Bytes :=
  (array 16).ser i.sessionId ++ UInt8.ofNat (i.addresses.length + 128) :: 0 ::
    ((i.addresses.map fun a => (a.ip, a.port)).flatMap endpoint.ser ++ ((array 32).ser i.serverPk ++
      (Session.Plaintext.token.ser i.token ++ (array 64).ser i.signature)))

theorem count_padded {n : ℕ} (hn : n < 128) (rest : Bytes) :
    count.de (UInt8.ofNat (n + 128) :: 0 :: rest) = some (n, rest) := by
  have hbyte : (UInt8.ofNat (n + 128)).toNat = n + 128 := by
    rw [UInt8.toNat_ofNat']
    exact Nat.mod_eq_of_lt (by omega)
  have hgoes : ¬UInt8.ofNat (n + 128) < 128 := by
    rw [UInt8.lt_iff_toNat_lt, hbyte]
    exact Nat.not_lt.mpr (Nat.le_add_left 128 n)
  have hlength : (UInt8.ofNat (n + 128) :: 0 :: rest).length = rest.length + 1 + 1 := rfl
  have hvalue : n + 128 - 128 + 128 * (0 : UInt8).toNat = n := by
    have hzero : (0 : UInt8).toNat = 0 := rfl
    omega
  have hread : readVarint (rest.length + 1 + 1) (UInt8.ofNat (n + 128) :: 0 :: rest) =
      some (n, rest) := by
    rw [readVarint, if_neg hgoes, hbyte, readVarint, if_pos zero_index, Option.map_some]
    simp only
    rw [hvalue]
  have hgroups : rest.length + 1 + 1 - rest.length ≤ max 10 (varintLen n) := by
    rw [le_max_iff]
    exact .inl (by omega)
  simp only [count]
  rw [hlength, hread, Option.bind_some, if_pos hgroups]

theorem pair_de {α β : Type} {A : Codec α} {B : Codec β} {bs mid rest : Bytes} {a : α} {b : β}
    (ha : A.de bs = some (a, mid)) (hb : B.de mid = some (b, rest)) :
    (A.pair B).de bs = some ((a, b), rest) := by
  simp only [Codec.pair, ha, Option.bind_some, Codec.read, hb, Option.map_some]

theorem de_padded {i : Invite} (hcount : i.addresses.length < 128) :
    invite.de (paddedInvite i) = some (i.unscoped, []) := by
  have haddresses : ∀ rest, endpoint.list.de (UInt8.ofNat (i.addresses.length + 128) :: 0 ::
      ((i.addresses.map fun a => (a.ip, a.port)).flatMap endpoint.ser ++ rest)) =
        some (i.addresses.map fun a => (a.ip, a.port), rest) := by
    intro rest
    have hread := endpoint_lawful.readMany (i.addresses.map fun a => (a.ip, a.port)) rest
    simp only [Codec.list]
    rw [count_padded hcount, Option.bind_some]
    rwa [List.length_map] at hread
  have htail := ((array_lawful 32).pair (Session.Plaintext.token_lawful.pair
    (array_lawful 64))).de_ser (i.serverPk, i.token, i.signature)
  have hser : ((array 32).pair (Session.Plaintext.token.pair (array 64))).ser
      (i.serverPk, i.token, i.signature) = (array 32).ser i.serverPk ++
        (Session.Plaintext.token.ser i.token ++ (array 64).ser i.signature) := rfl
  rw [hser] at htail
  have hall := pair_de (array_lawful 16 i.sessionId _) (pair_de (haddresses _) htail)
  simp only [invite, inviteParts, Codec.via, Codec.read]
  rw [paddedInvite, hall, Option.map_some, ← Invite.ofParts_partsOf]
  rfl

theorem length_padded (i : Invite) (hcount : i.addresses.length < 128) :
    (paddedInvite i).length = (invite.ser i).length + 1 := by
  have hone : (count.ser i.addresses.length).length = 1 := by
    rw [count_sized, varintLen, Nat.log_of_lt hcount]
  simp only [paddedInvite, invite, inviteParts, partsOf, Codec.via, Codec.pair, Codec.list,
    List.length_map, List.length_append, List.length_cons, hone]
  omega

end Postcard

namespace Invite

def shortest (text : String) : Bool := (Base64.decode (blob text)).all Postcard.inviteTidy

theorem blob_eq_iff {text : String} {i : Invite} (h : decode text = .ok i) :
    blob text = Base64.encode (Postcard.invite.ser i) ↔ shortest text = true := by
  obtain ⟨bytes, hdigits, hread, -⟩ := decode_ok.mp h
  have htidy := Postcard.invite_tells bytes i [] hread
  rw [List.append_nil] at htidy
  rw [shortest, hdigits, Option.all_some, htidy, ← Base64.encode_of_decode hdigits]
  constructor
  · intro hblob
    have hback := congrArg Base64.decode hblob
    rw [Base64.decode_encode, Base64.decode_encode] at hback
    exact Option.some.inj hback
  · exact congrArg Base64.encode

theorem encode_eq_blob (i : Invite) : i.encode = String.ofList (urlPrefix ++ blob i.encode) := by
  have hlink : i.encode = link (Postcard.invite.ser i) := rfl
  rw [hlink, blob_link, link]

/-- An invite comes back from its own link exactly if no address of it has a flow label or a
scope, and a text is that link, white space and prefix apart, exactly if its varints are as
short as they can be. -/
theorem one_text_iff_shortest (text : String) (i : Invite) :
    (i.addresses ≠ [] → (decode i.encode = .ok i ↔ ∀ a ∈ i.addresses, a.Unscoped)) ∧
    (decode text = .ok i → (i.encode = String.ofList (urlPrefix ++ blob text) ↔
      shortest text = true)) ∧
    ∀ text', decode text = .ok i → decode text' = .ok i → shortest text = true →
      (blob text = blob text' ↔ shortest text' = true) := by
  have hback : i.addresses ≠ [] → (decode i.encode = .ok i ↔ ∀ a ∈ i.addresses, a.Unscoped) := by
    intro haddresses
    rw [decode_encode haddresses, Except.ok.injEq]
    exact unscoped_eq_iff i
  have hown : decode text = .ok i →
      (i.encode = String.ofList (urlPrefix ++ blob text) ↔ shortest text = true) := by
    intro h
    rw [← blob_eq_iff h, encode, String.ofList_inj, List.append_right_inj]
    exact eq_comm
  refine ⟨hback, hown, ?_⟩
  intro text' h h' hshort
  rw [← blob_eq_iff h', (blob_eq_iff h).mpr hshort]
  exact eq_comm

theorem one_text_iff_shortest_beta : shortest beta.encode = true := by
  have hbeta := one_text_iff_shortest beta.encode beta
  have hunscoped : ∀ a ∈ beta.addresses, a.Unscoped := by
    intro a ha
    rw [List.mem_singleton.mp ha]
    exact trivial
  exact (hbeta.2.1 ((hbeta.1 (List.cons_ne_nil _ _)).mpr hunscoped)).mp (encode_eq_blob beta)

theorem decode_padded {i : Invite} (haddresses : i.addresses ≠ [])
    (hcount : i.addresses.length < 128) :
    decode (link (Postcard.paddedInvite i)) = .ok i.unscoped := by
  have hsome : i.unscoped.addresses ≠ [] := fun h => haddresses (List.map_eq_nil_iff.mp h)
  refine decode_ok.mpr ⟨Postcard.paddedInvite i, ?_, Postcard.de_padded hcount, hsome⟩
  rw [blob_link, Base64.decode_encode]

theorem blob_padded_ne {i : Invite} (hcount : i.addresses.length < 128) :
    blob i.encode ≠ blob (link (Postcard.paddedInvite i)) := by
  have hlink : i.encode = link (Postcard.invite.ser i) := rfl
  rw [hlink, blob_link, blob_link]
  intro hsame
  have hbytes := congrArg Base64.decode hsame
  rw [Base64.decode_encode, Base64.decode_encode, Option.some.injEq] at hbytes
  have hlength := congrArg List.length hbytes
  rw [Postcard.length_padded i hcount] at hlength
  exact Nat.succ_ne_self _ hlength.symm

def linkLocal : Invite :=
  { beta with addresses := [.v6 0xfe800000000000000000000000000001 43210 0 5] }

theorem decode_linkLocal : decode linkLocal.encode ≠ .ok linkLocal := by
  have hscoped : ¬∀ a ∈ linkLocal.addresses, a.Unscoped := by
    intro h
    exact absurd (h _ List.mem_cons_self).2 (by decide)
  intro h
  rw [decode_encode (List.cons_ne_nil _ _), Except.ok.injEq] at h
  exact hscoped ((unscoped_eq_iff linkLocal).mp h)

/-- Two texts for one invite, its link and the link whose address count has one more group;
and an invite whose link names another. -/
theorem two_texts :
    (¬∀ text text' i, decode text = .ok i → decode text' = .ok i → blob text = blob text') ∧
    ¬∀ i : Invite, i.addresses ≠ [] → decode i.encode = .ok i := by
  have hsome : beta.addresses ≠ [] := List.cons_ne_nil _ _
  have hcount : beta.addresses.length < 128 := Nat.one_lt_ofNat
  constructor
  · intro h
    exact blob_padded_ne hcount (h beta.encode (link (Postcard.paddedInvite beta)) beta.unscoped
      (decode_encode hsome) (decode_padded hsome hcount))
  · exact fun h => decode_linkLocal (h linkLocal (List.cons_ne_nil _ _))

end Invite
end JamStream.Protocol
