import JamStream.Foundations.Codec

/-! A compact binary format and its laws: integers as base-128 varints, texts and
sequences behind their lengths, options behind a byte, enumerations behind their
index. Each codec comes with how it reads back and how many bytes it writes. -/

namespace JamStream.Foundations

/-- The bytes a varint takes. -/
def varintLen (n : ℕ) : ℕ := Nat.log 128 n + 1

/-- At most `k` groups of seven bits, the lowest first. -/
def varint : ℕ → ℕ → List UInt8
  | 0, _ => []
  | k + 1, n =>
    if n < 128 then [UInt8.ofNat n] else UInt8.ofNat (n % 128 + 128) :: varint k (n / 128)

def readVarint : ℕ → List UInt8 → Option (ℕ × List UInt8)
  | 0, _ => none
  | _ + 1, [] => none
  | k + 1, b :: bs =>
    if b < 128 then some (b.toNat, bs)
    else (readVarint k bs).map fun r => (b.toNat - 128 + 128 * r.1, r.2)

theorem varintLen_le {k n : ℕ} (hn : n < 128 ^ k) (hk : k ≠ 0) : varintLen n ≤ k := by
  unfold varintLen
  rcases Nat.eq_zero_or_pos n with rfl | hpos
  · simpa using Nat.one_le_iff_ne_zero.mpr hk
  · exact Nat.log_lt_of_lt_pow hpos.ne' hn

theorem length_varint {k n : ℕ} (hn : n < 128 ^ k) (hk : k ≠ 0) :
    (varint k n).length = varintLen n := by
  induction k generalizing n with
  | zero => exact absurd rfl hk
  | succ k ih =>
    unfold varint varintLen
    split_ifs with hlt
    · rw [Nat.log_of_lt hlt, List.length_singleton]
    · have hdiv : n / 128 < 128 ^ k := by
        rw [Nat.div_lt_iff_lt_mul (by norm_num), ← pow_succ]
        exact hn
      have hk' : k ≠ 0 := by
        rintro rfl
        simp only [zero_add, pow_one] at hn
        exact hlt hn
      have hlog : Nat.log 128 n = Nat.log 128 (n / 128) + 1 :=
        Nat.log_of_one_lt_of_le (by norm_num) (Nat.not_lt.mp hlt)
      rw [List.length_cons, ih hdiv hk', varintLen, hlog]

theorem readVarint_varint {k n : ℕ} (hn : n < 128 ^ k) (hk : k ≠ 0) (rest : List UInt8) :
    readVarint k (varint k n ++ rest) = some (n, rest) := by
  induction k generalizing n with
  | zero => exact absurd rfl hk
  | succ k ih =>
    unfold varint
    split_ifs with hlt
    · have hb : (UInt8.ofNat n).toNat = n := by
        rw [UInt8.toNat_ofNat']
        omega
      have hsmall : UInt8.ofNat n < 128 := by
        rw [UInt8.lt_iff_toNat_lt, hb]
        exact hlt
      simp only [List.cons_append, List.nil_append, readVarint, if_pos hsmall, hb]
    · have hdiv : n / 128 < 128 ^ k := by
        rw [Nat.div_lt_iff_lt_mul (by norm_num), ← pow_succ]
        exact hn
      have hk' : k ≠ 0 := by
        rintro rfl
        simp only [zero_add, pow_one] at hn
        exact hlt hn
      have hb : (UInt8.ofNat (n % 128 + 128)).toNat = n % 128 + 128 := by
        rw [UInt8.toNat_ofNat']
        omega
      have hbig : ¬UInt8.ofNat (n % 128 + 128) < 128 := by
        rw [UInt8.lt_iff_toNat_lt, hb]
        exact Nat.not_lt.mpr (Nat.le_add_left 128 _)
      simp only [List.cons_append, readVarint, if_neg hbig, ih hdiv hk', Option.map_some, hb]
      congr 2
      omega

namespace Codec
variable {α β : Type}

/-- What the writer of `a` puts out is `size a` bytes long. -/
def Sized (C : Codec α) (size : α → ℕ) : Prop := ∀ a, (C.ser a).length = size a

def read (C : Codec β) (mk : β → α) (bs : List UInt8) : Option (α × List UInt8) :=
  (C.de bs).map fun r => (mk r.1, r.2)

theorem Lawful.read_ser {C : Codec β} (h : C.Lawful) (mk : β → α) (b : β) (rest : List UInt8) :
    C.read mk (C.ser b ++ rest) = some (mk b, rest) := by
  simp only [read, h b rest, Option.map_some]

/-- The same bytes read as another type. -/
def via (C : Codec β) (into : α → β) (back : β → α) : Codec α where
  ser a := C.ser (into a)
  de := C.read back

theorem Lawful.via {C : Codec β} (h : C.Lawful) {into : α → β} {back : β → α}
    (hback : ∀ a, back (into a) = a) : (C.via into back).Lawful := by
  intro a rest
  simp only [Codec.via, h.read_ser, hback]

theorem Sized.via {C : Codec β} {size : β → ℕ} (h : C.Sized size) (into : α → β)
    (back : β → α) : (C.via into back).Sized fun a => size (into a) := fun a => h (into a)

def pair (A : Codec α) (B : Codec β) : Codec (α × β) where
  ser p := A.ser p.1 ++ B.ser p.2
  de bs := (A.de bs).bind fun r => B.read (fun b => (r.1, b)) r.2

theorem Lawful.pair {A : Codec α} {B : Codec β} (hA : A.Lawful) (hB : B.Lawful) :
    (A.pair B).Lawful := by
  intro p rest
  simp only [Codec.pair, List.append_assoc, hA p.1, Option.bind_some, hB.read_ser]

theorem Sized.pair {A : Codec α} {B : Codec β} {sa : α → ℕ} {sb : β → ℕ} (hA : A.Sized sa)
    (hB : B.Sized sb) : (A.pair B).Sized fun p => sa p.1 + sb p.2 := by
  intro p
  simp only [Codec.pair, List.length_append, hA p.1, hB p.2]

def unit : Codec Unit where
  ser _ := []
  de bs := some ((), bs)

theorem unit_lawful : unit.Lawful := fun _ _ => rfl
theorem unit_sized : unit.Sized fun _ => 0 := fun _ => rfl

/-- Unsigned integers below `bound`, in at most `k` groups. -/
def nat (k bound : ℕ) : Codec (Fin bound) where
  ser n := varint k n
  de bs := (readVarint k bs).bind fun r => if h : r.1 < bound then some (⟨r.1, h⟩, r.2) else none

theorem nat_lawful {k bound : ℕ} (hk : k ≠ 0) (hbound : bound ≤ 128 ^ k) :
    (nat k bound).Lawful := by
  intro n rest
  have hn : (n : ℕ) < 128 ^ k := n.isLt.trans_le hbound
  simp only [nat, readVarint_varint hn hk, Option.bind_some, n.isLt, dif_pos]

theorem nat_sized {k bound : ℕ} (hk : k ≠ 0) (hbound : bound ≤ 128 ^ k) :
    (nat k bound).Sized fun n => varintLen n := by
  intro n
  exact length_varint (n.isLt.trans_le hbound) hk

def u8 : Codec UInt8 where
  ser b := [b]
  de bs := bs.head?.map fun b => (b, bs.tail)

def u16 : Codec UInt16 :=
  (nat 3 (2 ^ 16)).via (fun n => ⟨n.toNat, n.toNat_lt⟩) fun n => UInt16.ofNat n

def u32 : Codec UInt32 :=
  (nat 5 (2 ^ 32)).via (fun n => ⟨n.toNat, n.toNat_lt⟩) fun n => UInt32.ofNat n

def u64 : Codec UInt64 :=
  (nat 10 (2 ^ 64)).via (fun n => ⟨n.toNat, n.toNat_lt⟩) fun n => UInt64.ofNat n

theorem u8_lawful : u8.Lawful := fun _ _ => rfl
theorem u8_sized : u8.Sized fun _ => 1 := fun _ => rfl

theorem u16_lawful : u16.Lawful := by
  have h : (nat 3 (2 ^ 16)).Lawful := nat_lawful (by norm_num) (by norm_num)
  exact h.via fun _ => UInt16.ofNat_toNat

theorem u32_lawful : u32.Lawful := by
  have h : (nat 5 (2 ^ 32)).Lawful := nat_lawful (by norm_num) (by norm_num)
  exact h.via fun _ => UInt32.ofNat_toNat

theorem u64_lawful : u64.Lawful := by
  have h : (nat 10 (2 ^ 64)).Lawful := nat_lawful (by norm_num) (by norm_num)
  exact h.via fun _ => UInt64.ofNat_toNat

theorem u16_sized : u16.Sized fun n => varintLen n.toNat := by
  have h : (nat 3 (2 ^ 16)).Sized _ := nat_sized (by norm_num) (by norm_num)
  exact h.via _ _

theorem u32_sized : u32.Sized fun n => varintLen n.toNat := by
  have h : (nat 5 (2 ^ 32)).Sized _ := nat_sized (by norm_num) (by norm_num)
  exact h.via _ _

theorem u64_sized : u64.Sized fun n => varintLen n.toNat := by
  have h : (nat 10 (2 ^ 64)).Sized _ := nat_sized (by norm_num) (by norm_num)
  exact h.via _ _

def bool : Codec Bool where
  ser b := [if b then 1 else 0]
  de
    | 0 :: bs => some (false, bs)
    | 1 :: bs => some (true, bs)
    | _ => none

theorem bool_lawful : bool.Lawful := by
  intro b rest
  cases b <;> rfl

theorem bool_sized : bool.Sized fun _ => 1 := fun _ => rfl

def readMany (C : Codec α) : ℕ → List UInt8 → Option (List α × List UInt8)
  | 0, bs => some ([], bs)
  | n + 1, bs => (C.de bs).bind fun r => (readMany C n r.2).map fun q => (r.1 :: q.1, q.2)

theorem Lawful.readMany {C : Codec α} (h : C.Lawful) (xs : List α) (rest : List UInt8) :
    C.readMany xs.length (xs.flatMap C.ser ++ rest) = some (xs, rest) := by
  induction xs with
  | nil => rfl
  | cons x xs ih =>
    simp only [List.length_cons, List.flatMap_cons, List.append_assoc, Codec.readMany, h x,
      Option.bind_some, ih, Option.map_some]

/-- A length, in at most the ten groups that 64 bits take. No length has more bits than that, so
a longer one reads back as it is written. -/
def count : Codec ℕ where
  ser n := varint (varintLen n) n
  de bs := (readVarint bs.length bs).bind fun r =>
    if bs.length - r.2.length ≤ max 10 (varintLen r.1) then some r else none

theorem readVarint_mono {k m : ℕ} {bs : List UInt8} {r : ℕ × List UInt8}
    (h : readVarint k bs = some r) (hkm : k ≤ m) : readVarint m bs = some r := by
  induction k generalizing m bs r with
  | zero => cases h
  | succ k ih =>
    obtain ⟨m, rfl⟩ := Nat.exists_eq_add_of_le' (Nat.lt_of_lt_of_le (Nat.succ_pos k) hkm)
    cases bs with
    | nil => cases h
    | cons b bs =>
      simp only [readVarint] at h ⊢
      split_ifs at h ⊢ with hb
      · exact h
      · obtain ⟨q, hq, rfl⟩ := Option.map_eq_some_iff.mp h
        rw [ih hq (Nat.le_of_succ_le_succ hkm), Option.map_some]

theorem count_sized : count.Sized varintLen := fun n =>
  length_varint (Nat.lt_pow_succ_log_self (by norm_num) n) (Nat.succ_ne_zero _)

theorem count_lawful : count.Lawful := by
  intro n rest
  have hread : readVarint (varintLen n) (varint (varintLen n) n ++ rest) = some (n, rest) :=
    readVarint_varint (Nat.lt_pow_succ_log_self (by norm_num) n) (Nat.succ_ne_zero _) rest
  have hwritten : (varint (varintLen n) n).length = varintLen n := count_sized n
  have hlength : (varint (varintLen n) n ++ rest).length = varintLen n + rest.length := by
    rw [List.length_append, hwritten]
  have hlong := readVarint_mono hread (hlength ▸ Nat.le_add_right _ _)
  simp only [count]
  rw [hlong, Option.bind_some, if_pos]
  rw [hlength, Nat.add_sub_cancel]
  exact le_max_right _ _

def list (C : Codec α) : Codec (List α) where
  ser xs := count.ser xs.length ++ xs.flatMap C.ser
  de bs := (count.de bs).bind fun r => C.readMany r.1 r.2

theorem Lawful.list {C : Codec α} (h : C.Lawful) : C.list.Lawful := by
  intro xs rest
  simp only [Codec.list, List.append_assoc, count_lawful xs.length, Option.bind_some, h.readMany]

theorem Sized.list {C : Codec α} {size : α → ℕ} (h : C.Sized size) :
    C.list.Sized fun xs => varintLen xs.length + (xs.map size).sum := by
  intro xs
  have hser : ∀ x, (C.ser x).length = size x := h
  simp only [Codec.list, List.length_append, count_sized xs.length, List.length_flatMap, hser]

def option (C : Codec α) : Codec (Option α) where
  ser
    | none => [0]
    | some a => 1 :: C.ser a
  de
    | 0 :: bs => some (none, bs)
    | 1 :: bs => C.read some bs
    | _ => none

theorem Lawful.option {C : Codec α} (h : C.Lawful) : C.option.Lawful := by
  intro o rest
  cases o with
  | none => rfl
  | some a => exact h.read_ser some a rest

theorem Sized.option {C : Codec α} {size : α → ℕ} (h : C.Sized size) :
    C.option.Sized fun o => 1 + o.elim 0 size := by
  intro o
  cases o with
  | none => rfl
  | some a =>
    simp only [Codec.option, List.length_cons, h a, Option.elim_some]
    exact Nat.add_comm _ _

/-- `k` bytes, the lowest first. -/
def le : ℕ → ℕ → List UInt8
  | 0, _ => []
  | k + 1, n => UInt8.ofNat (n % 256) :: le k (n / 256)

def readLe : ℕ → List UInt8 → Option (ℕ × List UInt8)
  | 0, bs => some (0, bs)
  | _ + 1, [] => none
  | k + 1, b :: bs => (readLe k bs).map fun r => (b.toNat + 256 * r.1, r.2)

theorem readLe_le {k n : ℕ} (hn : n < 256 ^ k) (rest : List UInt8) :
    readLe k (le k n ++ rest) = some (n, rest) := by
  induction k generalizing n with
  | zero =>
    have h0 : n = 0 := by simpa using hn
    subst h0
    rfl
  | succ k ih =>
    have hdiv : n / 256 < 256 ^ k := by
      rw [Nat.div_lt_iff_lt_mul (by norm_num), ← pow_succ]
      exact hn
    have hb : (UInt8.ofNat (n % 256)).toNat = n % 256 := by
      rw [UInt8.toNat_ofNat']
      omega
    simp only [le, List.cons_append, readLe, ih hdiv, Option.map_some, hb]
    congr 2
    omega

theorem length_le (k n : ℕ) : (le k n).length = k := by
  induction k generalizing n with
  | zero => rfl
  | succ k ih => rw [le, List.length_cons, ih]

/-- A fixed array of `k` bytes held as one vector, its first byte the most significant one. -/
def array (k : ℕ) : Codec (BitVec (8 * k)) where
  ser v := (le k v.toNat).reverse
  de bs :=
    if bs.length < k then none
    else (readLe k (bs.take k).reverse).map fun r => (BitVec.ofNat (8 * k) r.1, bs.drop k)

theorem array_lawful (k : ℕ) : (array k).Lawful := by
  intro v rest
  have hv : v.toNat < 256 ^ k := by
    have hpow : (256 : ℕ) ^ k = 2 ^ (8 * k) := by
      rw [pow_mul]
      norm_num
    exact hpow ▸ v.isLt
  have hlen : (le k v.toNat).reverse.length = k := by rw [List.length_reverse, length_le]
  have hread := readLe_le hv []
  rw [List.append_nil] at hread
  simp only [array]
  rw [if_neg (by rw [List.length_append, hlen]; omega), List.take_left' hlen, List.reverse_reverse,
    hread, List.drop_left' hlen, Option.map_some, BitVec.ofNat_toNat, BitVec.setWidth_eq]

theorem array_sized (k : ℕ) : (array k).Sized fun _ => k := by
  intro v
  simp only [array, List.length_reverse, length_le]

/-- The bits of a single, in four bytes. -/
def bits32 : Codec UInt32 where
  ser n := le 4 n.toNat
  de bs := (readLe 4 bs).map fun r => (UInt32.ofNat r.1, r.2)

theorem bits32_lawful : bits32.Lawful := by
  intro n rest
  simp only [bits32, readLe_le (k := 4) n.toNat_lt, Option.map_some, UInt32.ofNat_toNat]

theorem bits32_sized : bits32.Sized fun _ => 4 := fun n => length_le 4 n.toNat

def bytes : Codec (List UInt8) := u8.list

theorem bytes_lawful : bytes.Lawful := u8_lawful.list

theorem bytes_sized : bytes.Sized fun bs => varintLen bs.length + bs.length := by
  intro bs
  rw [bytes, u8_sized.list bs]
  simp only [List.map_const', List.sum_replicate, smul_eq_mul, Nat.mul_one]

/-- UTF-8 behind its length in bytes. -/
def string : Codec String where
  ser s := bytes.ser s.toByteArray.data.toList
  de bs := (bytes.de bs).bind fun r =>
    (String.fromUTF8? ⟨r.1.toArray⟩).map fun s => (s, r.2)

theorem string_lawful : string.Lawful := by
  intro s rest
  have hback : String.fromUTF8? ⟨s.toByteArray.data.toList.toArray⟩ = some s := by
    simp only [Array.toArray_toList, String.fromUTF8?, s.isValidUTF8, dif_pos]
    rfl
  simp only [string, bytes_lawful _, Option.bind_some, hback, Option.map_some]

theorem string_sized : string.Sized fun s => varintLen s.utf8ByteSize + s.utf8ByteSize := by
  intro s
  exact bytes_sized _

@[irreducible] def tagged (tag : UInt8) (C : Codec β) (b : β) : List UInt8 := tag :: C.ser b

@[irreducible] def readTagged (cases : UInt32 → List UInt8 → Option (α × List UInt8)) (bs : List UInt8) :
    Option (α × List UInt8) :=
  (u32.de bs).bind fun r => cases r.1 r.2

theorem readTagged_tagged {cases : UInt32 → List UInt8 → Option (α × List UInt8)} {tag : UInt8}
    (htag : tag < 128) (C : Codec β) (b : β) (rest : List UInt8) :
    readTagged cases (tagged tag C b ++ rest) = cases tag.toUInt32 (C.ser b ++ rest) := by
  have hlt : tag.toNat < 2 ^ 32 := tag.toNat_lt.trans (by norm_num)
  have hsame : UInt32.ofNat tag.toNat = tag.toUInt32 := by
    rw [← UInt8.toNat_toUInt32, UInt32.ofNat_toNat]
  have htag' : u32.de (tag :: (C.ser b ++ rest)) = some (tag.toUInt32, C.ser b ++ rest) := by
    simp only [u32, Codec.via, read, nat, readVarint, if_pos htag, Option.bind_some, dif_pos hlt,
      Option.map_some, hsame]
  simp only [readTagged, tagged, List.cons_append, htag', Option.bind_some]

/-- One case of an enumeration reads back: its index leads to its own reader, and the reader
rebuilds the value. -/
theorem Lawful.case {C : Codec β} (h : C.Lawful)
    {cases : UInt32 → List UInt8 → Option (α × List UInt8)} {tag : UInt8} {mk : β → α} {a : α}
    {b : β} {rest : List UInt8} (hcase : cases tag.toUInt32 = C.read mk) (ha : mk b = a)
    (htag : decide (tag < 128) = true) :
    readTagged cases (tagged tag C b ++ rest) = some (a, rest) := by
  rw [readTagged_tagged (of_decide_eq_true htag), hcase, h.read_ser, ha]

theorem Sized.case {C : Codec β} {size : β → ℕ} (h : C.Sized size) (tag : UInt8) (b : β) :
    (tagged tag C b).length = 1 + size b := by
  rw [tagged, List.length_cons, h b, Nat.add_comm]

end Codec
end JamStream.Foundations
