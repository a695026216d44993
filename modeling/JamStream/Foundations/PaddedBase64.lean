import JamStream.Foundations.Base64

/-! Base64 in the standard alphabet, padded: the digits of the alphabet of links but for two,
in blocks of four. A block that ends in padding may stand anywhere. -/

namespace JamStream.Foundations.PaddedBase64

def toStandard (c : Char) : Char := if c = '-' then '+' else if c = '_' then '/' else c

def fromStandard (c : Char) : Char :=
  if c = '+' then '-' else if c = '/' then '_' else if c = '-' ∨ c = '_' then '=' else c

def encode : List UInt8 → List Char
  | [] => []
  | [a] => (Base64.encode [a]).map toStandard ++ ['=', '=']
  | [a, b] => (Base64.encode [a, b]).map toStandard ++ ['=']
  | a :: b :: c :: rest => (Base64.encode [a, b, c]).map toStandard ++ encode rest

def decodeBlock (p q r s : Char) : Option (List UInt8) :=
  let digits := if s ≠ '=' then [p, q, r, s] else if r ≠ '=' then [p, q, r] else [p, q]
  Base64.decode (digits.map fromStandard)

def decode : List Char → Option (List UInt8)
  | [] => some []
  | p :: q :: r :: s :: rest =>
    (decodeBlock p q r s).bind fun block => (decode rest).map fun bytes => block ++ bytes
  | _ => none

theorem fromStandard_digit : ∀ n < 64,
    fromStandard (toStandard (Base64.digit n)) = Base64.digit n ∧
      toStandard (Base64.digit n) ≠ '=' := by
  decide +kernel

theorem back_digit {n : ℕ} (h : n < 64) : fromStandard (toStandard (Base64.digit n)) = Base64.digit n :=
  (fromStandard_digit n h).1

theorem decode_encode (bytes : List UInt8) : decode (encode bytes) = some bytes := by
  induction bytes using encode.induct with
  | case1 => rfl
  | case2 a =>
    have ha := a.toNat_lt
    have hback := Base64.decode_encode [a]
    rw [Base64.encode] at hback
    have hblock : decodeBlock (toStandard (Base64.digit (a.toNat / 4)))
        (toStandard (Base64.digit (a.toNat % 4 * 16))) '=' '=' = some [a] := by
      show Base64.decode [fromStandard _, fromStandard _] = _
      rw [back_digit (by omega), back_digit (by omega), hback]
    show (decodeBlock _ _ _ _).bind _ = _
    rw [hblock]
    rfl
  | case3 a b =>
    have ha := a.toNat_lt
    have hb := b.toNat_lt
    have hback := Base64.decode_encode [a, b]
    rw [Base64.encode] at hback
    have hthird := (fromStandard_digit (b.toNat % 16 * 4) (by omega)).2
    have hblock : decodeBlock (toStandard (Base64.digit (a.toNat / 4)))
        (toStandard (Base64.digit (a.toNat % 4 * 16 + b.toNat / 16)))
        (toStandard (Base64.digit (b.toNat % 16 * 4))) '=' = some [a, b] := by
      rw [decodeBlock, if_neg (not_not.mpr rfl), if_pos hthird]
      show Base64.decode [fromStandard _, fromStandard _, fromStandard _] = _
      rw [back_digit (by omega), back_digit (by omega), back_digit (by omega), hback]
    show (decodeBlock _ _ _ _).bind _ = _
    rw [hblock]
    rfl
  | case4 a b c rest ih =>
    have ha := a.toNat_lt
    have hb := b.toNat_lt
    have hc := c.toNat_lt
    have hback := Base64.decode_encode [a, b, c]
    rw [Base64.encode, Base64.encode] at hback
    have hfourth := (fromStandard_digit (c.toNat % 64) (by omega)).2
    have hblock : decodeBlock (toStandard (Base64.digit (a.toNat / 4)))
        (toStandard (Base64.digit (a.toNat % 4 * 16 + b.toNat / 16)))
        (toStandard (Base64.digit (b.toNat % 16 * 4 + c.toNat / 64)))
        (toStandard (Base64.digit (c.toNat % 64))) = some [a, b, c] := by
      rw [decodeBlock, if_pos hfourth]
      show Base64.decode [fromStandard _, fromStandard _, fromStandard _, fromStandard _] = _
      rw [back_digit (by omega), back_digit (by omega), back_digit (by omega),
        back_digit (by omega), hback]
    have htail : decode (([] : List Char).append (encode rest)) = some rest := ih
    show (decodeBlock _ _ _ _).bind _ = _
    rw [hblock, Option.bind_some, Base64.encode, List.map_nil, htail]
    rfl

def InRange (c : Char) : Prop := 43 ≤ c.toNat ∧ c.toNat ≤ 122

theorem inRange_of_value {c : Char} (h : (Base64.value (fromStandard c)).isSome) : InRange c := by
  by_cases hplus : c = '+'
  · subst hplus
    exact ⟨by decide, by decide⟩
  by_cases hslash : c = '/'
  · subst hslash
    exact ⟨by decide, by decide⟩
  by_cases hlink : c = '-' ∨ c = '_'
  · rcases hlink with rfl | rfl <;> exact ⟨by decide, by decide⟩
  · rw [fromStandard, if_neg hplus, if_neg hslash, if_neg hlink] at h
    simp only [Base64.value] at h
    unfold InRange
    split_ifs at h <;> first | omega | cases h

theorem inRange_of_digits {digits : List Char} {bytes : List UInt8}
    (h : Base64.decode (digits.map fromStandard) = some bytes) : ∀ c ∈ digits, InRange c := by
  have hvalue : ∀ n < 64, (Base64.value (Base64.digit n)).isSome := by
    intro n hn
    rw [Base64.value_digit n hn]
    rfl
  have hall : ∀ c ∈ Base64.encode bytes, (Base64.value c).isSome :=
    Base64.forall_mem_encode hvalue bytes
  rw [Base64.encode_of_decode h] at hall
  intro c hc
  exact inRange_of_value (hall _ (List.mem_map_of_mem hc))

theorem inRange_of_block {p q r s : Char} {block : List UInt8}
    (h : decodeBlock p q r s = some block) : InRange p ∧ InRange q ∧ InRange r ∧ InRange s := by
  have hpad : InRange '=' := ⟨by decide, by decide⟩
  unfold decodeBlock at h
  by_cases hs : s = '='
  · rw [if_neg (not_not.mpr hs)] at h
    by_cases hr : r = '='
    · rw [if_neg (not_not.mpr hr)] at h
      have hall := inRange_of_digits h
      rw [hs, hr]
      exact ⟨hall p (by simp), hall q (by simp), hpad, hpad⟩
    · rw [if_pos hr] at h
      have hall := inRange_of_digits h
      rw [hs]
      exact ⟨hall p (by simp), hall q (by simp), hall r (by simp), hpad⟩
  · rw [if_pos hs] at h
    have hall := inRange_of_digits h
    exact ⟨hall p (by simp), hall q (by simp), hall r (by simp), hall s (by simp)⟩

theorem inRange_of_decode {text : List Char} {bytes : List UInt8} (h : decode text = some bytes) :
    ∀ c ∈ text, InRange c := by
  induction text using decode.induct generalizing bytes with
  | case1 => exact fun c hc => absurd hc List.not_mem_nil
  | case2 p q r s rest ih =>
    rw [decode] at h
    obtain ⟨block, hblock, hrest⟩ := Option.bind_eq_some_iff.mp h
    obtain ⟨more, hmore, -⟩ := Option.map_eq_some_iff.mp hrest
    obtain ⟨hp, hq, hr, hs⟩ := inRange_of_block hblock
    intro c hc
    simp only [List.mem_cons] at hc
    rcases hc with rfl | rfl | rfl | rfl | hc
    · exact hp
    · exact hq
    · exact hr
    · exact hs
    · exact ih hmore c hc
  | case3 text hnil hfour =>
    rw [decode] at h
    · cases h
    · exact hnil
    · exact hfour

theorem inRange_encode (bytes : List UInt8) : ∀ c ∈ encode bytes, InRange c :=
  inRange_of_decode (decode_encode bytes)

end JamStream.Foundations.PaddedBase64
