import Mathlib

/-! Where the characters of names and numbers stand among all characters. -/

namespace JamStream.Foundations

theorem toNat_of_isAlphanum {c : Char} (h : c.isAlphanum) : 48 ≤ c.toNat ∧ c.toNat ≤ 122 := by
  simp only [Char.isAlphanum, Char.isAlpha, Char.isUpper, Char.isLower, Char.isDigit,
    Bool.or_eq_true, Bool.and_eq_true, decide_eq_true_eq, UInt32.le_iff_toNat_le, ge_iff_le] at h
  have hval : c.toNat = c.val.toNat := rfl
  have hzero : '0'.val.toNat = 48 := rfl
  have hnine : '9'.val.toNat = 57 := rfl
  have hupper : 'A'.val.toNat = 65 ∧ 'Z'.val.toNat = 90 := ⟨rfl, rfl⟩
  have hlower : 'a'.val.toNat = 97 ∧ 'z'.val.toNat = 122 := ⟨rfl, rfl⟩
  omega

theorem utf8Size_of_ascii {c : Char} (h : c.toNat < 128) : c.utf8Size = 1 :=
  Char.utf8Size_eq_one_iff.mpr (UInt32.le_iff_toNat_le.mpr (Nat.le_of_lt_succ h))

theorem utf8ByteSize_of_ascii {text : List Char} (h : ∀ c ∈ text, c.toNat < 128) :
    (String.ofList text).utf8ByteSize = text.length := by
  induction text with
  | nil => rfl
  | cons c text ih =>
    have hc := utf8Size_of_ascii (h c List.mem_cons_self)
    rw [String.ofList_cons, String.utf8ByteSize_append, String.utf8ByteSize_singleton, hc,
      ih fun d hd => h d (List.mem_cons_of_mem c hd), List.length_cons, Nat.add_comm]

/-- Digits, after a plus or none, of a number below the limit. -/
def parseUnsigned (limit : ℕ) (text : List Char) : Option ℕ :=
  let digits := if text.head? = some '+' then text.tail else text
  let value := Nat.ofDigitChars 10 digits 0
  if digits.isEmpty || digits.any (fun c => !c.isDigit) || limit ≤ value then none else some value

theorem isDigit_of_mem_toDigits {n : ℕ} {c : Char} (h : c ∈ Nat.toDigits 10 n) : c.isDigit :=
  Nat.isDigit_of_mem_toDigits (by decide) (by decide) h

theorem parseUnsigned_toDigits {limit n : ℕ} (h : n < limit) :
    parseUnsigned limit (Nat.toDigits 10 n) = some n := by
  have hplain : (Nat.toDigits 10 n).head? ≠ some '+' := by
    intro hplus
    exact absurd (isDigit_of_mem_toDigits (List.mem_of_mem_head? hplus)) (by decide)
  have hsome : (Nat.toDigits 10 n).isEmpty = false :=
    List.isEmpty_eq_false_iff.mpr Nat.toDigits_ne_nil
  have hdigits : (Nat.toDigits 10 n).any (fun c => !c.isDigit) = false := by
    rw [List.any_eq_false]
    intro c hc
    rw [isDigit_of_mem_toDigits hc]
    exact Bool.false_ne_true
  simp only [parseUnsigned, if_neg hplain, hsome, hdigits, Nat.ofDigitChars_ten_toDigits,
    Bool.false_or, decide_eq_true_eq, if_neg (Nat.not_le.mpr h)]

end JamStream.Foundations
