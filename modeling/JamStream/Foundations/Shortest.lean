import JamStream.Foundations.Postcard

/-! Which inputs of a reader are the ones its writer puts out. Everything in the format has one
spelling but the varints, which may be padded with empty groups. -/

namespace JamStream.Foundations

/-- The varint at the front is the single byte 0, or its last group is not empty. -/
def fewest (bs : List UInt8) : Bool :=
  bs.head? == some 0 || (bs.dropWhile fun b => !decide (b < 128)).head? != some 0

theorem readVarint_lt {k n : ℕ} {bs rest : List UInt8} (h : readVarint k bs = some (n, rest)) :
    n < 128 ^ k := by
  induction k generalizing bs n with
  | zero => cases h
  | succ k ih =>
    rcases bs with _ | ⟨b, bs⟩
    · cases h
    have hb := b.toNat_lt
    rw [readVarint] at h
    split_ifs at h with hlt
    · rw [UInt8.lt_iff_toNat_lt] at hlt
      obtain ⟨rfl, -⟩ := Prod.mk.inj (Option.some.inj h)
      exact lt_of_lt_of_le hlt (Nat.le_self_pow (Nat.succ_ne_zero k) 128)
    · obtain ⟨⟨m, rest'⟩, hrest, heq⟩ := Option.map_eq_some_iff.mp h
      obtain ⟨rfl, rfl⟩ := Prod.mk.inj heq
      have hm := ih hrest
      rw [pow_succ]
      simp only
      omega

theorem pos_of_readVarint {k n : ℕ} {bs rest : List UInt8} (h : readVarint k bs = some (n, rest))
    (hlast : (bs.dropWhile fun b => !decide (b < 128)).head? ≠ some 0) : 0 < n := by
  induction k generalizing bs n with
  | zero => cases h
  | succ k ih =>
    rcases bs with _ | ⟨b, bs⟩
    · cases h
    rw [readVarint] at h
    rw [List.dropWhile_cons] at hlast
    by_cases hlt : b < 128
    · rw [if_pos hlt] at h
      rw [decide_eq_true hlt, Bool.not_true, if_neg Bool.false_ne_true, List.head?_cons] at hlast
      obtain ⟨rfl, -⟩ := Prod.mk.inj (Option.some.inj h)
      refine Nat.pos_of_ne_zero ?_
      intro hzero
      exact hlast (congrArg some (UInt8.toNat_inj.mp hzero))
    · rw [if_neg hlt] at h
      rw [decide_eq_false hlt, Bool.not_false, if_pos rfl] at hlast
      obtain ⟨⟨m, rest'⟩, hrest, heq⟩ := Option.map_eq_some_iff.mp h
      obtain ⟨rfl, rfl⟩ := Prod.mk.inj heq
      have hm := ih hrest hlast
      simp only
      omega

theorem fewest_iff {k n : ℕ} {bs rest : List UInt8} (h : readVarint k bs = some (n, rest)) :
    fewest bs = true ↔ bs = varint k n ++ rest := by
  induction k generalizing bs n with
  | zero => cases h
  | succ k ih =>
    rcases bs with _ | ⟨b, bs⟩
    · cases h
    have hb := b.toNat_lt
    rw [readVarint] at h
    by_cases hlt : b < 128
    · -- A single group is as few as it gets.
      rw [if_pos hlt] at h
      obtain ⟨rfl, rfl⟩ := Prod.mk.inj (Option.some.inj h)
      have hsmall : b.toNat < 128 := UInt8.lt_iff_toNat_lt.mp hlt
      have hfew : fewest (b :: bs) = true := by
        rw [fewest, List.dropWhile_cons, decide_eq_true hlt, Bool.not_true,
          if_neg Bool.false_ne_true, List.head?_cons, Bool.or_eq_true, beq_iff_eq, bne_iff_ne]
        exact em _
      rw [varint, if_pos hsmall, UInt8.ofNat_toNat]
      exact iff_of_true hfew rfl
    · rw [if_neg hlt] at h
      obtain ⟨⟨m, rest'⟩, hrest, heq⟩ := Option.map_eq_some_iff.mp h
      obtain ⟨rfl, rfl⟩ := Prod.mk.inj heq
      have hlarge : 128 ≤ b.toNat := Nat.not_lt.mp fun hs => hlt (UInt8.lt_iff_toNat_lt.mpr hs)
      have hhead : ¬(some b == some (0 : UInt8)) = true := by
        rw [beq_iff_eq, Option.some.injEq]
        rintro rfl
        exact absurd hlarge (by decide)
      have hfew : fewest (b :: bs) = true ↔
          (bs.dropWhile fun b => !decide (b < 128)).head? ≠ some 0 := by
        rw [fewest, List.dropWhile_cons, decide_eq_false hlt, Bool.not_false, if_pos rfl,
          List.head?_cons, Bool.or_eq_true, or_iff_right hhead, bne_iff_ne]
      rw [hfew]
      have hvalue : (b.toNat - 128 + 128 * m) % 128 + 128 = b.toNat := by omega
      have hquot : (b.toNat - 128 + 128 * m) / 128 = m := by omega
      simp only
      rw [varint, hvalue, hquot, UInt8.ofNat_toNat]
      constructor
      · intro hlast
        have hpos := pos_of_readVarint hrest hlast
        have hshort : fewest bs = true := by
          rw [fewest, Bool.or_eq_true, bne_iff_ne]
          exact .inr hlast
        rw [if_neg (by omega), List.cons_append, ← (ih hrest).mp hshort]
      · intro heq
        split_ifs at heq with hone
        · -- One group cannot be a group that is continued.
          have hfirst := (List.cons.inj heq).1
          have := congrArg UInt8.toNat hfirst
          rw [UInt8.toNat_ofNat'] at this
          omega
        · have htail := (ih hrest).mpr (List.cons.inj heq).2
          rw [fewest, Bool.or_eq_true, beq_iff_eq, bne_iff_ne] at htail
          refine htail.resolve_left ?_
          intro hzero
          rcases bs with _ | ⟨c, bs⟩
          · cases hzero
          · obtain rfl := Option.some.inj hzero
            rcases k with _ | k
            · cases hrest
            · have hread : readVarint (k + 1) (0 :: bs) = some (0, bs) := rfl
              rw [hread] at hrest
              obtain ⟨rfl, -⟩ := Prod.mk.inj (Option.some.inj hrest)
              omega

theorem varint_congr {k m n : ℕ} (hk : n < 128 ^ k) (hm : n < 128 ^ m) (hk0 : k ≠ 0)
    (hm0 : m ≠ 0) : varint k n = varint m n := by
  induction k generalizing m n with
  | zero => exact absurd rfl hk0
  | succ k ih =>
    obtain ⟨m, rfl⟩ := Nat.exists_eq_succ_of_ne_zero hm0
    rw [varint, varint]
    split_ifs with hlt
    · rfl
    · have hdiv : ∀ {j : ℕ}, n < 128 ^ (j + 1) → n / 128 < 128 ^ j := by
        intro j hj
        rw [Nat.div_lt_iff_lt_mul (by norm_num), ← pow_succ]
        exact hj
      have hpos : ∀ {j : ℕ}, n < 128 ^ (j + 1) → j ≠ 0 := by
        rintro _ hj rfl
        rw [zero_add, pow_one] at hj
        exact hlt hj
      rw [ih (hdiv hk) (hdiv hm) (hpos hk) (hpos hm)]

namespace Codec
variable {α β : Type}

/-- `tidy` holds of just those inputs that start with what the writer puts out. -/
def Tells (C : Codec α) (tidy : List UInt8 → Bool) : Prop :=
  ∀ bs a rest, C.de bs = some (a, rest) → (tidy bs = true ↔ bs = C.ser a ++ rest)

def always (_ : List UInt8) : Bool := true

def pairTidy (A : Codec α) (ta tb : List UInt8 → Bool) (bs : List UInt8) : Bool :=
  ta bs && (A.de bs).all fun r => tb r.2

theorem Tells.pair {A : Codec α} {B : Codec β} (hA : A.Lawful) {ta tb : List UInt8 → Bool}
    (ha : A.Tells ta) (hb : B.Tells tb) : (A.pair B).Tells (pairTidy A ta tb) := by
  rintro bs ⟨a, b⟩ rest hde
  obtain ⟨⟨a', mid⟩, hfirst, hsecond⟩ := Option.bind_eq_some_iff.mp hde
  obtain ⟨⟨b', rest'⟩, hlast, heq⟩ := Option.map_eq_some_iff.mp hsecond
  obtain ⟨hab, rfl⟩ := Prod.mk.inj heq
  obtain ⟨rfl, rfl⟩ := Prod.mk.inj hab
  simp only at hfirst hlast ⊢
  have hta := ha bs a' mid hfirst
  have htb := hb mid b' rest' hlast
  rw [pairTidy, hfirst, Option.all_some, Bool.and_eq_true, hta, htb]
  simp only [Codec.pair, List.append_assoc]
  constructor
  · rintro ⟨hbs, hmid⟩
    rw [hbs, hmid]
  · intro hbs
    have hmid : mid = B.ser b' ++ rest' := by
      rw [hbs, hA a'] at hfirst
      exact (Prod.mk.inj (Option.some.inj hfirst)).2.symm
    exact ⟨hmid ▸ hbs, hmid⟩

theorem Tells.via {C : Codec β} {tidy : List UInt8 → Bool} (h : C.Tells tidy) {into : α → β}
    {back : β → α} (hinto : ∀ b, into (back b) = b) : (C.via into back).Tells tidy := by
  intro bs a rest hde
  obtain ⟨⟨b, rest'⟩, hread, heq⟩ := Option.map_eq_some_iff.mp hde
  cases heq
  simp only [Codec.via, hinto]
  exact h bs b rest' hread

theorem nat_tells {k bound : ℕ} : (nat k bound).Tells fewest := by
  intro bs n rest hde
  obtain ⟨⟨m, rest'⟩, hread, hbound⟩ := Option.bind_eq_some_iff.mp hde
  simp only at hbound
  split_ifs at hbound with hlt
  cases hbound
  exact fewest_iff hread

theorem u16_tells : u16.Tells fewest := by
  refine nat_tells.via ?_
  intro n
  ext
  exact Nat.mod_eq_of_lt n.isLt

theorem u32_tells : u32.Tells fewest := by
  refine nat_tells.via ?_
  intro n
  ext
  exact Nat.mod_eq_of_lt n.isLt

theorem u64_tells : u64.Tells fewest := by
  refine nat_tells.via ?_
  intro n
  ext
  exact Nat.mod_eq_of_lt n.isLt

theorem count_tells : count.Tells fewest := by
  intro bs n rest hde
  obtain ⟨⟨m, rest'⟩, hread, hgroups⟩ := Option.bind_eq_some_iff.mp hde
  simp only at hgroups
  split_ifs at hgroups
  cases hgroups
  have hne : bs.length ≠ 0 := by
    intro hzero
    rw [List.length_eq_zero_iff.mp hzero] at hread
    cases hread
  rw [fewest_iff hread, varint_congr (readVarint_lt hread)
    (Nat.lt_pow_succ_log_self (by norm_num) n) hne (Nat.succ_ne_zero _)]
  rfl

theorem u8_tells : u8.Tells always := by
  intro bs b rest hde
  rcases bs with _ | ⟨c, bs⟩
  · cases hde
  · cases hde
    exact iff_of_true rfl rfl

theorem le_of_readLe {k n : ℕ} {bs rest : List UInt8} (h : readLe k bs = some (n, rest)) :
    bs = le k n ++ rest := by
  induction k generalizing bs n with
  | zero =>
    cases h
    rfl
  | succ k ih =>
    rcases bs with _ | ⟨b, bs⟩
    · cases h
    obtain ⟨⟨m, rest'⟩, hread, heq⟩ := Option.map_eq_some_iff.mp h
    obtain ⟨rfl, rfl⟩ := Prod.mk.inj heq
    have hb := b.toNat_lt
    have hlow : (b.toNat + 256 * m) % 256 = b.toNat := by omega
    have hhigh : (b.toNat + 256 * m) / 256 = m := by omega
    simp only
    rw [le, hlow, hhigh, UInt8.ofNat_toNat, List.cons_append, ← ih hread]

theorem readLe_lt {k n : ℕ} {bs rest : List UInt8} (h : readLe k bs = some (n, rest)) :
    n < 256 ^ k := by
  induction k generalizing bs n with
  | zero =>
    cases h
    exact Nat.one_pos
  | succ k ih =>
    rcases bs with _ | ⟨b, bs⟩
    · cases h
    obtain ⟨⟨m, rest'⟩, hread, heq⟩ := Option.map_eq_some_iff.mp h
    obtain ⟨rfl, rfl⟩ := Prod.mk.inj heq
    have hb := b.toNat_lt
    have hm := ih hread
    rw [pow_succ]
    simp only
    omega

theorem array_tells (k : ℕ) : (array k).Tells always := by
  intro bs v rest hde
  simp only [array] at hde ⊢
  split_ifs at hde with hshort
  obtain ⟨⟨n, left⟩, hread, heq⟩ := Option.map_eq_some_iff.mp hde
  obtain ⟨rfl, rfl⟩ := Prod.mk.inj heq
  refine iff_of_true rfl ?_
  have hpow : (256 : ℕ) ^ k = 2 ^ (8 * k) := by
    rw [pow_mul]
    norm_num
  have hvalue : (BitVec.ofNat (8 * k) n).toNat = n := by
    rw [BitVec.toNat_ofNat]
    exact Nat.mod_eq_of_lt (hpow ▸ readLe_lt hread)
  have hspelled := le_of_readLe hread
  have hleft : left = [] := by
    have hlen := congrArg List.length hspelled
    rw [List.length_reverse, List.length_take, List.length_append, length_le] at hlen
    exact List.length_eq_zero_iff.mp (by omega)
  rw [hleft, List.append_nil] at hspelled
  simp only
  rw [hvalue, ← hspelled, List.reverse_reverse, List.take_append_drop]

def manyTidy (C : Codec α) (tidy : List UInt8 → Bool) : ℕ → List UInt8 → Bool
  | 0, _ => true
  | n + 1, bs => tidy bs && (C.de bs).all fun r => manyTidy C tidy n r.2

theorem many_tells {C : Codec α} (hC : C.Lawful) {tidy : List UInt8 → Bool} (h : C.Tells tidy)
    {n : ℕ} {bs rest : List UInt8} {xs : List α} (hread : C.readMany n bs = some (xs, rest)) :
    xs.length = n ∧ (manyTidy C tidy n bs = true ↔ bs = xs.flatMap C.ser ++ rest) := by
  induction n generalizing bs xs with
  | zero =>
    cases hread
    exact ⟨rfl, iff_of_true rfl rfl⟩
  | succ n ih =>
    obtain ⟨⟨x, mid⟩, hfirst, hsecond⟩ := Option.bind_eq_some_iff.mp hread
    obtain ⟨⟨ys, rest'⟩, hmany, heq⟩ := Option.map_eq_some_iff.mp hsecond
    obtain ⟨rfl, rfl⟩ := Prod.mk.inj heq
    simp only at hmany ⊢
    obtain ⟨hlength, hys⟩ := ih hmany
    refine ⟨by rw [List.length_cons, hlength], ?_⟩
    have hx := h bs x mid hfirst
    rw [manyTidy, hfirst, Option.all_some, Bool.and_eq_true, hx, hys, List.flatMap_cons,
      List.append_assoc]
    constructor
    · rintro ⟨hbs, hmid⟩
      rw [hbs, hmid]
    · intro hbs
      have hmid : mid = ys.flatMap C.ser ++ rest' := by
        rw [hbs, hC x] at hfirst
        exact (Prod.mk.inj (Option.some.inj hfirst)).2.symm
      exact ⟨hmid ▸ hbs, hmid⟩

def listTidy (C : Codec α) (tidy : List UInt8 → Bool) (bs : List UInt8) : Bool :=
  fewest bs && (count.de bs).all fun r => manyTidy C tidy r.1 r.2

theorem Tells.list {C : Codec α} (hC : C.Lawful) {tidy : List UInt8 → Bool} (h : C.Tells tidy) :
    C.list.Tells (listTidy C tidy) := by
  intro bs xs rest hde
  obtain ⟨⟨n, mid⟩, hcount, hmany⟩ := Option.bind_eq_some_iff.mp hde
  simp only at hmany
  obtain ⟨hlength, hxs⟩ := many_tells hC h hmany
  have hn := count_tells bs n mid hcount
  rw [listTidy, hcount, Option.all_some, Bool.and_eq_true, hn, hxs]
  simp only [Codec.list, List.append_assoc, hlength]
  constructor
  · rintro ⟨hbs, hmid⟩
    rw [hbs, hmid]
  · intro hbs
    have hmid : mid = xs.flatMap C.ser ++ rest := by
      rw [hbs, count_lawful n] at hcount
      exact (Prod.mk.inj (Option.some.inj hcount)).2.symm
    exact ⟨hmid ▸ hbs, hmid⟩

def optionTidy (tidy : List UInt8 → Bool) : List UInt8 → Bool
  | 1 :: bs => tidy bs
  | _ => true

theorem Tells.option {C : Codec α} {tidy : List UInt8 → Bool} (h : C.Tells tidy) :
    C.option.Tells (optionTidy tidy) := by
  intro bs o rest hde
  simp only [Codec.option] at hde
  split at hde
  · cases hde
    exact iff_of_true rfl rfl
  · rename_i bs
    obtain ⟨⟨a, rest'⟩, hread, heq⟩ := Option.map_eq_some_iff.mp hde
    cases heq
    rw [optionTidy, h bs a rest' hread]
    exact ⟨congrArg (List.cons 1), fun heq => (List.cons.inj heq).2⟩
  · cases hde

theorem bytes_tells : bytes.Tells (listTidy u8 always) := u8_tells.list u8_lawful

theorem string_tells : string.Tells (listTidy u8 always) := by
  intro bs s rest hde
  obtain ⟨⟨text, rest'⟩, hread, hutf8⟩ := Option.bind_eq_some_iff.mp hde
  obtain ⟨s', hs', heq⟩ := Option.map_eq_some_iff.mp hutf8
  cases heq
  have hbytes : s.toByteArray.data.toList = text := by
    rw [String.fromUTF8?] at hs'
    split_ifs at hs' with hvalid
    cases hs'
    rfl
  rw [bytes_tells bs text rest' hread]
  simp only [string]
  rw [hbytes]

theorem exists_of_readTagged {cases : UInt32 → List UInt8 → Option (α × List UInt8)}
    {bs rest : List UInt8} {a : α} (h : readTagged cases bs = some (a, rest)) :
    ∃ tag mid, u32.de bs = some (tag, mid) ∧ cases tag mid = some (a, rest) := by
  rw [readTagged] at h
  obtain ⟨⟨tag, mid⟩, hindex, hcase⟩ := Option.bind_eq_some_iff.mp h
  exact ⟨tag, mid, hindex, hcase⟩

def taggedTidy (cases : UInt32 → List UInt8 → Bool) (bs : List UInt8) : Bool :=
  fewest bs && (u32.de bs).all fun r => cases r.1 r.2

theorem taggedTidy_iff {tag : UInt8} (htag : tag < 128) {C : Codec β}
    {tidy : List UInt8 → Bool} (h : C.Tells tidy) {cases : UInt32 → List UInt8 → Bool}
    (hcases : cases tag.toUInt32 = tidy) {bs mid rest : List UInt8} {mk : β → α} {a : α}
    (hindex : u32.de bs = some (tag.toUInt32, mid)) (hread : C.read mk mid = some (a, rest)) :
    ∃ b, mk b = a ∧ (taggedTidy cases bs = true ↔ bs = tagged tag C b ++ rest) := by
  obtain ⟨⟨b, rest'⟩, hbody, heq⟩ := Option.map_eq_some_iff.mp hread
  obtain ⟨hmk, rfl⟩ := Prod.mk.inj heq
  simp only at hbody hmk ⊢
  refine ⟨b, hmk, ?_⟩
  have hu32 : u32.ser tag.toUInt32 = [tag] := by
    have hsmall : tag.toNat < 128 := UInt8.lt_iff_toNat_lt.mp htag
    show varint 5 tag.toUInt32.toNat = [tag]
    rw [UInt8.toNat_toUInt32, varint, if_pos hsmall, UInt8.ofNat_toNat]
  rw [taggedTidy, hindex, Option.all_some, Bool.and_eq_true, hcases,
    u32_tells bs _ mid hindex, h mid b rest' hbody, hu32, tagged]
  constructor
  · rintro ⟨hbs, hmid⟩
    rw [hbs, hmid]
    rfl
  · intro hbs
    have hmid : mid = C.ser b ++ rest' := by
      have hback : u32.de (tag :: (C.ser b ++ rest')) =
          some (tag.toUInt32, C.ser b ++ rest') := by
        rw [← List.singleton_append, ← hu32]
        exact u32_lawful _ _
      rw [hbs, List.cons_append, hback] at hindex
      exact (Prod.mk.inj (Option.some.inj hindex)).2.symm
    refine ⟨?_, hmid⟩
    rw [hbs, hmid]
    rfl

end Codec
end JamStream.Foundations
