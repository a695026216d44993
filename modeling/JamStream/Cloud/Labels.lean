import JamStream.Cloud.Launch
import JamStream.Cloud.RecordingConfig

/-! Labels back from what a session's tags are encoded as, and what follows for the names a
session has on GCP. -/

namespace JamStream.Cloud
open Foundations Server

def lowerDigit (c : Char) : Option ℕ := if isHex c then digit c else none

/-- The bytes that pairs of lowercase digits stand for. -/
def hexLowerDecode : Text → Option (List UInt8)
  | [] => some []
  | a :: b :: rest =>
    (lowerDigit a).bind fun x => (lowerDigit b).bind fun y =>
      (hexLowerDecode rest).map fun bytes => UInt8.ofNat (16 * x + y) :: bytes
  | [_] => none

/-- A label that holds no escape is what it says. -/
def labelDecode (label : String) : String :=
  (((stripPrefix label escapePrefix).bind fun hex => hexLowerDecode hex.toList).bind
    fromUtf8).getD label

def labelChar (c : Char) : Bool := c.isLower || c.isDigit || c == '-'

structure LabelText (label : String) : Prop where
  head : ∃ c rest, label.toList = c :: rest ∧ c.isLower
  chars : ∀ c ∈ label.toList, labelChar c
  length : label.length ≤ maxLabelLen

section hex
variable {bytes : List UInt8}

theorem hexLowerDecode_hexByte (b : UInt8) (rest : Text) :
    hexLowerDecode (hexByte b ++ rest) = (hexLowerDecode rest).map fun bytes => b :: bytes := by
  have hall : ∀ n : Fin 256,
      lowerDigit (hexDigit (n.val / 16)) = some (n.val / 16) ∧
        lowerDigit (hexDigit (n.val % 16)) = some (n.val % 16) := by decide +kernel
  obtain ⟨hhigh, hlow⟩ := hall ⟨b.toNat, b.toNat_lt⟩
  have hback : UInt8.ofNat (16 * (b.toNat / 16) + b.toNat % 16) = b := by
    rw [Nat.div_add_mod, UInt8.ofNat_toNat]
  show hexLowerDecode (hexDigit _ :: hexDigit _ :: rest) = _
  rw [hexLowerDecode, hhigh, hlow, Option.bind_some, Option.bind_some, hback]

theorem hexLowerDecode_flatMap (bytes : List UInt8) :
    hexLowerDecode (bytes.flatMap hexByte) = some bytes := by
  induction bytes with
  | nil => rfl
  | cons b bytes ih =>
    rw [List.flatMap_cons, hexLowerDecode_hexByte, ih]
    rfl

theorem isHex_flatMap : ∀ c ∈ bytes.flatMap hexByte, isHex c := by
  intro c hc
  obtain ⟨b, -, hb⟩ := List.mem_flatMap.mp hc
  have hlt := b.toNat_lt
  rcases List.mem_pair.mp hb with rfl | rfl
  · exact isHex_hexDigit _ (by omega)
  · exact isHex_hexDigit _ (by omega)

end hex

theorem loop_eq_drop (bs : ByteArray) (i : ℕ) (r : List UInt8) :
    ByteArray.toList.loop bs i r = r.reverse ++ bs.data.toList.drop i := by
  induction i, r using ByteArray.toList.loop.induct bs with
  | case1 i r hlt ih =>
    have hlist : i < bs.data.toList.length := hlt
    have hget : bs.get! i = bs.data.toList[i] := by
      show bs.data[i]! = _
      rw [getElem!_pos bs.data i hlt, Array.getElem_toList]
    rw [ByteArray.toList.loop, if_pos hlt, ih, hget, List.reverse_cons, List.append_assoc,
      List.singleton_append, List.getElem_cons_drop]
  | case2 i r hend =>
    have hlist : bs.data.toList.length ≤ i := Nat.not_lt.mp hend
    rw [ByteArray.toList.loop, if_neg hend, List.drop_eq_nil_of_le hlist, List.append_nil]

theorem toList_toUTF8 (s : String) : s.toUTF8.toList = utf8 s := loop_eq_drop s.toUTF8 0 []

section encode
variable {debug : String → String} {s t label : String}

theorem ascii_of_labelChar {c : Char} (h : labelChar c) : c.toNat < 128 := by
  simp only [labelChar, Bool.or_eq_true, beq_iff_eq] at h
  rcases h with (hlower | hdigit) | rfl
  · have halnum : c.isAlphanum := by
      rw [Char.isAlphanum, Char.isAlpha, hlower, Bool.or_true, Bool.true_or]
    exact (toNat_of_isAlphanum halnum).2.trans_lt (by decide)
  · have halnum : c.isAlphanum := by
      rw [Char.isAlphanum, hdigit, Bool.or_true]
    exact (toNat_of_isAlphanum halnum).2.trans_lt (by decide)
  · decide

theorem labelChar_of_isHex {c : Char} (h : isHex c) : labelChar c := by
  have hall : ∀ n < 128, isHex (Char.ofNat n) → labelChar (Char.ofNat n) := by decide
  have hback : Char.ofNat c.toNat = c := Char.ofNat_toNat c
  have hlt : c.toNat < 128 := by
    have hrange := isHex_toNat h
    omega
  rw [← hback]
  exact hall c.toNat hlt (hback.symm ▸ h)

theorem stripPrefix_append (start rest : String) :
    stripPrefix (start ++ rest) start = some rest := by
  have hbegins : start.toList.isPrefixOf (start ++ rest).toList = true := by
    rw [String.toList_append]
    exact List.isPrefixOf_iff_prefix.mpr (List.prefix_append _ _)
  rw [stripPrefix, if_pos hbegins, String.toList_append, ← String.length_toList, List.drop_left,
    String.ofList_toList]

theorem labelText_of_chars (hhead : ∃ c rest, label.toList = c :: rest ∧ c.isLower)
    (hchars : ∀ c ∈ label.toList, labelChar c) (hlength : label.utf8ByteSize ≤ maxLabelLen) :
    LabelText label := by
  refine ⟨hhead, hchars, ?_⟩
  have hsize := utf8ByteSize_of_ascii fun c hc => ascii_of_labelChar (hchars c hc)
  rw [String.ofList_toList, String.length_toList] at hsize
  exact hsize ▸ hlength

theorem labelEncode_ok (h : labelEncode debug s = .ok label) :
    LabelText label ∧ labelDecode label = s := by
  by_cases hpass : (s.toList.head?.any Char.isLower &&
      s.toList.all (fun c => c.isLower || c.isDigit || c = '-') &&
        !startsWith s escapePrefix) = true
  · have hencoded : ¬maxLabelLen < s.utf8ByteSize ∧ s = label := by
      simp only [labelEncode, hpass, if_true] at h
      split_ifs at h with hlong
      exact ⟨hlong, Except.ok.inj h⟩
    obtain ⟨hshort, rfl⟩ := hencoded
    simp only [Bool.and_eq_true, List.all_eq_true, Bool.not_eq_true'] at hpass
    obtain ⟨⟨hhead, hchars⟩, hplain⟩ := hpass
    refine ⟨labelText_of_chars ?_ hchars (Nat.le_of_not_lt hshort), ?_⟩
    · obtain ⟨c, hc, hlower⟩ := Option.any_eq_true .. |>.mp hhead
      obtain ⟨rest, hrest⟩ := List.head?_eq_some_iff.mp hc
      exact ⟨c, rest, hrest, hlower⟩
    · have hstrip : stripPrefix s escapePrefix = none := by
        rw [stripPrefix]
        exact if_neg (Bool.eq_false_iff.mp hplain)
      rw [labelDecode, hstrip]
      rfl
  · have hencoded : ¬maxLabelLen <
          (escapePrefix ++ String.ofList ((utf8 s).flatMap hexByte)).utf8ByteSize ∧
        escapePrefix ++ String.ofList ((utf8 s).flatMap hexByte) = label := by
      simp only [labelEncode, hpass, toList_toUTF8] at h
      rw [if_neg Bool.false_ne_true] at h
      split_ifs at h with hlong
      exact ⟨hlong, Except.ok.inj h⟩
    obtain ⟨hshort, rfl⟩ := hencoded
    have hlist : (escapePrefix ++ String.ofList ((utf8 s).flatMap hexByte)).toList =
        'x' :: '-' :: '-' :: (utf8 s).flatMap hexByte := by
      rw [String.toList_append, String.toList_ofList]
      rfl
    refine ⟨labelText_of_chars ⟨'x', _, hlist, by decide⟩ ?_ (Nat.le_of_not_lt hshort), ?_⟩
    · rw [hlist]
      refine List.forall_mem_cons.mpr ⟨by decide, ?_⟩
      refine List.forall_mem_cons.mpr ⟨by decide, ?_⟩
      refine List.forall_mem_cons.mpr ⟨by decide, fun c hc => ?_⟩
      exact labelChar_of_isHex (isHex_flatMap c hc)
    · rw [labelDecode, stripPrefix_append, Option.bind_some, String.toList_ofList,
        hexLowerDecode_flatMap, Option.bind_some,
        RecordingStorage.fromUtf8_utf8]
      rfl

theorem labelEncode_inj (hs : labelEncode debug s = .ok label)
    (ht : labelEncode debug t = .ok label) : s = t :=
  (labelEncode_ok hs).2.symm.trans (labelEncode_ok ht).2

theorem networkTag_ok {tag : String} (h : networkTag debug s = .ok tag) :
    ∃ label, labelEncode debug s = .ok label ∧ tag = firewallPrefix ++ label := by
  rcases hlabel : labelEncode debug s with error | label
  · rw [networkTag, hlabel] at h
    cases h
  · rw [networkTag, hlabel] at h
    change (if _ then _ else _) = _ at h
    split_ifs at h with hlong
    exact ⟨label, rfl, (Except.ok.inj h).symm⟩

theorem networkTag_inj {tag : String} (hs : networkTag debug s = .ok tag)
    (ht : networkTag debug t = .ok tag) : s = t := by
  obtain ⟨label, hlabel, rfl⟩ := networkTag_ok hs
  obtain ⟨label', hlabel', heq⟩ := networkTag_ok ht
  have hsame := congrArg String.toList heq
  rw [String.toList_append, String.toList_append] at hsame
  obtain rfl := String.toList_injective (List.append_cancel_left hsame)
  exact labelEncode_inj hlabel hlabel'

theorem bodies_ok {bodies : List FirewallBody}
    (h : sessionFirewallBodies debug s = .ok bodies) :
    ∃ tag, networkTag debug s = .ok tag ∧ bodies = firewallBodies tag := by
  rcases htag : networkTag debug s with error | tag
  · rw [sessionFirewallBodies, htag] at h
    cases h
  · rw [sessionFirewallBodies, htag] at h
    rcases hlong : (firewallBodies tag).find? fun body => maxLabelLen < body.name.utf8ByteSize
      with _ | body
    · refine ⟨tag, rfl, ?_⟩
      simp only [bind, Except.bind, hlong] at h
      exact (Except.ok.inj h).symm
    · simp only [bind, Except.bind, hlong] at h
      cases h

theorem tag_of_name {tag tag' : String} {a b : FirewallBody} (ha : a ∈ firewallBodies tag)
    (hb : b ∈ firewallBodies tag') (h : a.name = b.name) : tag = tag' := by
  have hends : ∀ front back : String, (front ++ "-allow").toList ≠ (back ++ "-deny").toList := by
    intro front back heq
    have hlast := congrArg List.getLast? heq
    rw [String.toList_append, String.toList_append, List.getLast?_append, List.getLast?_append]
      at hlast
    have hmark : some 'w' = some 'y' := hlast
    exact absurd hmark (by decide)
  have hcancel : ∀ front back tail : String, front ++ tail = back ++ tail → front = back := by
    intro front back tail heq
    have hsame := congrArg String.toList heq
    rw [String.toList_append, String.toList_append] at hsame
    exact String.toList_injective (List.append_cancel_right hsame)
  rcases List.mem_pair.mp ha with rfl | rfl
  · rcases List.mem_pair.mp hb with rfl | rfl
    · exact hcancel _ _ _ h
    · exact absurd (congrArg String.toList h) (hends tag tag')
  · rcases List.mem_pair.mp hb with rfl | rfl
    · exact absurd (congrArg String.toList h).symm (hends tag' tag)
    · exact hcancel _ _ _ h

end encode

/-- An encoding is a label, and decodes to what was encoded; so two sessions share no label, no
network tag and no name of a firewall. -/
theorem labels_lossless (debug : String → String) :
    (∀ s label, labelEncode debug s = .ok label → LabelText label ∧ labelDecode label = s) ∧
    (∀ s t label, labelEncode debug s = .ok label → labelEncode debug t = .ok label → s = t) ∧
    (∀ s t tag, networkTag debug s = .ok tag → networkTag debug t = .ok tag → s = t) ∧
    ∀ s t bodies bodies', sessionFirewallBodies debug s = .ok bodies →
      sessionFirewallBodies debug t = .ok bodies' →
        ∀ a ∈ bodies, ∀ b ∈ bodies', a.name = b.name → s = t := by
  refine ⟨fun _ _ => labelEncode_ok, fun _ _ _ => labelEncode_inj, fun _ _ _ => networkTag_inj, ?_⟩
  intro s t bodies bodies' hs ht a ha b hb hname
  obtain ⟨tag, htag, rfl⟩ := bodies_ok hs
  obtain ⟨tag', htag', rfl⟩ := bodies_ok ht
  obtain rfl := tag_of_name ha hb hname
  exact networkTag_inj htag htag'

theorem labels_lossless_escaped :
    (∃ label, labelEncode id "Jam 1" = .ok label ∧ LabelText label ∧ labelDecode label = "Jam 1") ∧
    ∃ tag bodies, networkTag id "Jam 1" = .ok tag ∧ networkTag id "jam-1" ≠ .ok tag ∧
      sessionFirewallBodies id "Jam 1" = .ok bodies ∧ bodies.length = 2 ∧
      ∀ others, sessionFirewallBodies id "jam-1" = .ok others →
        ∀ a ∈ bodies, ∀ b ∈ others, a.name ≠ b.name := by
  have hruns : (labelEncode id "Jam 1").isOk = true ∧ (networkTag id "Jam 1").isOk = true ∧
      (sessionFirewallBodies id "Jam 1").toOption.map List.length = some 2 := by
    decide +kernel
  obtain ⟨hlabel, htag, hbodies⟩ := hruns
  obtain ⟨hdecodes, -, hapart, hnames⟩ := labels_lossless id
  have hne : "Jam 1" ≠ "jam-1" := by decide
  refine ⟨?_, ?_⟩
  · cases hencode : labelEncode id "Jam 1" with
    | error e =>
      rw [hencode] at hlabel
      cases hlabel
    | ok label => exact ⟨label, rfl, hdecodes _ _ hencode⟩
  · cases hnetwork : networkTag id "Jam 1" with
    | error e =>
      rw [hnetwork] at htag
      cases htag
    | ok tag =>
      cases hfirewall : sessionFirewallBodies id "Jam 1" with
      | error e =>
        rw [hfirewall] at hbodies
        cases hbodies
      | ok bodies =>
        rw [hfirewall] at hbodies
        refine ⟨tag, bodies, rfl, fun h => hne (hapart _ _ _ hnetwork h), rfl,
          Option.some.inj hbodies, fun others hothers a ha b hb hname => ?_⟩
        exact hne (hnames _ _ _ _ hfirewall hothers a ha b hb hname)

end JamStream.Cloud
