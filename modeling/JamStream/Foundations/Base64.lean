import Mathlib

/-! Base64 in the alphabet of links, without padding: three bytes are four digits, and the bits
a last digit has to spare are zero. -/

namespace JamStream.Foundations.Base64

def digit (n : ℕ) : Char :=
  "ABCDEFGHIJKLMNOPQRSTUVWXYZabcdefghijklmnopqrstuvwxyz0123456789-_".toList.getD n 'A'

def value (c : Char) : Option ℕ :=
  let n := c.toNat
  if 65 ≤ n ∧ n ≤ 90 then some (n - 65)
  else if 97 ≤ n ∧ n ≤ 122 then some (n - 71)
  else if 48 ≤ n ∧ n ≤ 57 then some (n + 4)
  else if n = 45 then some 62
  else if n = 95 then some 63
  else none

def encode : List UInt8 → List Char
  | [] => []
  | [a] => [digit (a.toNat / 4), digit (a.toNat % 4 * 16)]
  | [a, b] =>
    [digit (a.toNat / 4), digit (a.toNat % 4 * 16 + b.toNat / 16), digit (b.toNat % 16 * 4)]
  | a :: b :: c :: rest =>
    digit (a.toNat / 4) :: digit (a.toNat % 4 * 16 + b.toNat / 16) ::
      digit (b.toNat % 16 * 4 + c.toNat / 64) :: digit (c.toNat % 64) :: encode rest

/-- The last one or two bytes, if no bits are left over. -/
def tail (bytes : List ℕ) (spare : ℕ) : Option (List UInt8) :=
  if spare = 0 then some (bytes.map UInt8.ofNat) else none

def decode : List Char → Option (List UInt8)
  | [] => some []
  | [_] => none
  | [p, q] => do
    let p ← value p
    let q ← value q
    tail [p * 4 + q / 16] (q % 16)
  | [p, q, r] => do
    let p ← value p
    let q ← value q
    let r ← value r
    tail [p * 4 + q / 16, q % 16 * 16 + r / 4] (r % 4)
  | p :: q :: r :: s :: rest => do
    let p ← value p
    let q ← value q
    let r ← value r
    let s ← value s
    let bytes ← decode rest
    some (UInt8.ofNat (p * 4 + q / 16) :: UInt8.ofNat (q % 16 * 16 + r / 4) ::
      UInt8.ofNat (r % 4 * 64 + s) :: bytes)

theorem value_digit : ∀ n < 64, value (digit n) = some n := by decide +kernel

theorem digit_value_ascii : ∀ n < 128, ∀ k ∈ value (Char.ofNat n), digit k = Char.ofNat n := by
  decide +kernel

theorem value_lt {c : Char} {k : ℕ} (h : value c = some k) : c.toNat < 128 ∧ k < 64 := by
  simp only [value] at h
  split_ifs at h <;> cases h <;> omega

theorem digit_of_value {c : Char} {k : ℕ} (h : value c = some k) : digit k = c := by
  have hascii := (value_lt h).1
  have hback : Char.ofNat c.toNat = c := Char.ofNat_toNat c
  rw [← hback] at h ⊢
  exact digit_value_ascii _ hascii k h

theorem decode_encode (bytes : List UInt8) : decode (encode bytes) = some bytes := by
  induction bytes using encode.induct with
  | case1 => rfl
  | case2 a =>
    have ha := a.toNat_lt
    have hfirst := value_digit (a.toNat / 4) (by omega)
    have hsecond := value_digit (a.toNat % 4 * 16) (by omega)
    have hbyte : a.toNat / 4 * 4 + a.toNat % 4 * 16 / 16 = a.toNat := by omega
    have hspare : a.toNat % 4 * 16 % 16 = 0 := by omega
    rw [encode, decode, hfirst, hsecond]
    simp only [Option.bind_eq_bind, Option.bind_some, tail]
    rw [hbyte, if_pos hspare, List.map_singleton, UInt8.ofNat_toNat]
  | case3 a b =>
    have ha := a.toNat_lt
    have hb := b.toNat_lt
    have hfirst := value_digit (a.toNat / 4) (by omega)
    have hsecond := value_digit (a.toNat % 4 * 16 + b.toNat / 16) (by omega)
    have hthird := value_digit (b.toNat % 16 * 4) (by omega)
    have hleft : a.toNat / 4 * 4 + (a.toNat % 4 * 16 + b.toNat / 16) / 16 = a.toNat := by omega
    have hright : (a.toNat % 4 * 16 + b.toNat / 16) % 16 * 16 + b.toNat % 16 * 4 / 4 =
        b.toNat := by omega
    have hspare : b.toNat % 16 * 4 % 4 = 0 := by omega
    rw [encode, decode, hfirst, hsecond, hthird]
    simp only [Option.bind_eq_bind, Option.bind_some, tail]
    rw [hleft, hright, if_pos hspare, List.map_cons, List.map_singleton, UInt8.ofNat_toNat,
      UInt8.ofNat_toNat]
  | case4 a b c rest ih =>
    have ha := a.toNat_lt
    have hb := b.toNat_lt
    have hc := c.toNat_lt
    have hfirst := value_digit (a.toNat / 4) (by omega)
    have hsecond := value_digit (a.toNat % 4 * 16 + b.toNat / 16) (by omega)
    have hthird := value_digit (b.toNat % 16 * 4 + c.toNat / 64) (by omega)
    have hfourth := value_digit (c.toNat % 64) (by omega)
    have hleft : a.toNat / 4 * 4 + (a.toNat % 4 * 16 + b.toNat / 16) / 16 = a.toNat := by omega
    have hmiddle : (a.toNat % 4 * 16 + b.toNat / 16) % 16 * 16 +
        (b.toNat % 16 * 4 + c.toNat / 64) / 4 = b.toNat := by omega
    have hright : (b.toNat % 16 * 4 + c.toNat / 64) % 4 * 64 + c.toNat % 64 = c.toNat := by omega
    rw [encode, decode, hfirst, hsecond, hthird, hfourth, ih]
    simp only [Option.bind_eq_bind, Option.bind_some]
    rw [hleft, hmiddle, hright, UInt8.ofNat_toNat, UInt8.ofNat_toNat, UInt8.ofNat_toNat]

theorem encode_of_decode {text : List Char} {bytes : List UInt8} (h : decode text = some bytes) :
    encode bytes = text := by
  have hbyte : ∀ n < 256, (UInt8.ofNat n).toNat = n := by
    intro n hn
    rw [UInt8.toNat_ofNat']
    exact Nat.mod_eq_of_lt hn
  induction text using decode.induct generalizing bytes with
  | case1 =>
    cases h
    rfl
  | case2 => cases h
  | case3 p q =>
    simp only [decode, Option.bind_eq_bind, Option.bind_eq_some_iff] at h
    obtain ⟨p', hp, q', hq, htail⟩ := h
    rw [tail] at htail
    split_ifs at htail with hspare
    cases htail
    have hp64 := (value_lt hp).2
    have hq64 := (value_lt hq).2
    have hfirst : (p' * 4 + q' / 16) / 4 = p' := by omega
    have hsecond : (p' * 4 + q' / 16) % 4 * 16 = q' := by omega
    simp only [List.map_cons, List.map_nil, encode]
    rw [hbyte _ (by omega), hfirst, hsecond, digit_of_value hp, digit_of_value hq]
  | case4 p q r =>
    simp only [decode, Option.bind_eq_bind, Option.bind_eq_some_iff] at h
    obtain ⟨p', hp, q', hq, r', hr, htail⟩ := h
    rw [tail] at htail
    split_ifs at htail with hspare
    cases htail
    have hp64 := (value_lt hp).2
    have hq64 := (value_lt hq).2
    have hr64 := (value_lt hr).2
    have hfirst : (p' * 4 + q' / 16) / 4 = p' := by omega
    have hsecond : (p' * 4 + q' / 16) % 4 * 16 + (q' % 16 * 16 + r' / 4) / 16 = q' := by omega
    have hthird : (q' % 16 * 16 + r' / 4) % 16 * 4 = r' := by omega
    simp only [List.map_cons, List.map_nil, encode]
    rw [hbyte _ (by omega), hbyte _ (by omega), hfirst, hsecond, hthird, digit_of_value hp,
      digit_of_value hq, digit_of_value hr]
  | case5 p q r s rest ih =>
    simp only [decode, Option.bind_eq_bind, Option.bind_eq_some_iff, Option.some.injEq] at h
    obtain ⟨p', hp, q', hq, r', hr, s', hs, bytes', hrest, rfl⟩ := h
    have hp64 := (value_lt hp).2
    have hq64 := (value_lt hq).2
    have hr64 := (value_lt hr).2
    have hs64 := (value_lt hs).2
    have hfirst : (p' * 4 + q' / 16) / 4 = p' := by omega
    have hsecond : (p' * 4 + q' / 16) % 4 * 16 + (q' % 16 * 16 + r' / 4) / 16 = q' := by omega
    have hthird : (q' % 16 * 16 + r' / 4) % 16 * 4 + (r' % 4 * 64 + s') / 64 = r' := by omega
    have hfourth : (r' % 4 * 64 + s') % 64 = s' := by omega
    rw [encode, hbyte _ (by omega), hbyte _ (by omega), hbyte _ (by omega), hfirst, hsecond,
      hthird, hfourth, digit_of_value hp, digit_of_value hq, digit_of_value hr,
      digit_of_value hs, ih hrest]

theorem forall_mem_encode {P : Char → Prop} (h : ∀ n < 64, P (digit n)) (bytes : List UInt8) :
    ∀ c ∈ encode bytes, P c := by
  induction bytes using encode.induct with
  | case1 => exact fun _ hc => absurd hc List.not_mem_nil
  | case2 a =>
    have ha := a.toNat_lt
    intro c hc
    rw [encode, List.mem_cons, List.mem_singleton] at hc
    rcases hc with rfl | rfl
    · exact h _ (by omega)
    · exact h _ (by omega)
  | case3 a b =>
    have ha := a.toNat_lt
    have hb := b.toNat_lt
    intro c hc
    rw [encode, List.mem_cons, List.mem_cons, List.mem_singleton] at hc
    rcases hc with rfl | rfl | rfl
    · exact h _ (by omega)
    · exact h _ (by omega)
    · exact h _ (by omega)
  | case4 a b c rest ih =>
    have ha := a.toNat_lt
    have hb := b.toNat_lt
    have hc := c.toNat_lt
    intro d hd
    rw [encode, List.mem_cons, List.mem_cons, List.mem_cons, List.mem_cons] at hd
    rcases hd with rfl | rfl | rfl | rfl | hrest
    · exact h _ (by omega)
    · exact h _ (by omega)
    · exact h _ (by omega)
    · exact h _ (by omega)
    · exact ih d hrest

end JamStream.Foundations.Base64
