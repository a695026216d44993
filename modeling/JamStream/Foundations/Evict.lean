import Mathlib

/-! Making room in a list that may only hold so much: elements of one kind are dropped, the
first ones first, and no others. -/

namespace JamStream.Foundations.Evict
variable {α : Type*}

/-- The list without its first `k` elements of a kind. -/
def dropFirst (p : α → Bool) : ℕ → List α → List α
  | 0, xs => xs
  | _ + 1, [] => []
  | k + 1, x :: xs => if p x then dropFirst p k xs else x :: dropFirst p (k + 1) xs

/-- Drops elements of a kind until there is room for one more, or there is none left to drop. -/
def makeRoom (p : α → Bool) (cap : ℕ) : ℕ → List α → Option (List α)
  | 0, xs => if xs.length < cap then some xs else none
  | n + 1, xs =>
    if xs.length < cap then some xs
    else (xs.findIdx? p).bind fun i => makeRoom p cap n (xs.eraseIdx i)

variable {p : α → Bool}

@[simp] theorem dropFirst_zero (xs : List α) : dropFirst p 0 xs = xs := by
  cases xs <;> rfl

theorem dropFirst_succ (k : ℕ) (xs : List α) :
    dropFirst p (k + 1) xs = dropFirst p k (xs.eraseP p) := by
  induction xs generalizing k with
  | nil => cases k <;> rfl
  | cons x xs ih =>
    rw [dropFirst]
    by_cases hx : p x
    · rw [if_pos hx, List.eraseP_cons_of_pos hx]
    · rw [if_neg hx, List.eraseP_cons_of_neg hx, ih]
      cases k with
      | zero => rw [dropFirst_zero, dropFirst_zero]
      | succ k => rw [dropFirst, if_neg hx]

theorem dropFirst_sublist (k : ℕ) (xs : List α) : (dropFirst p k xs).Sublist xs := by
  induction xs generalizing k with
  | nil => cases k <;> exact .slnil
  | cons x xs ih =>
    cases k with
    | zero => exact .refl _
    | succ k =>
      rw [dropFirst]
      split_ifs
      · exact (ih k).cons x
      · exact (ih (k + 1)).cons_cons x

theorem filter_not_dropFirst (k : ℕ) (xs : List α) :
    (dropFirst p k xs).filter (fun x => !p x) = xs.filter fun x => !p x := by
  induction xs generalizing k with
  | nil => cases k <;> rfl
  | cons x xs ih =>
    cases k with
    | zero => rfl
    | succ k =>
      rw [dropFirst]
      by_cases hx : p x
      · rw [if_pos hx, ih, List.filter_cons_of_neg (by simp [hx])]
      · rw [if_neg hx, List.filter_cons_of_pos (by simp [hx]), ih,
          List.filter_cons_of_pos (by simp [hx])]

theorem filter_dropFirst (k : ℕ) (xs : List α) :
    (dropFirst p k xs).filter p = (xs.filter p).drop k := by
  induction xs generalizing k with
  | nil => cases k <;> rfl
  | cons x xs ih =>
    cases k with
    | zero => rfl
    | succ k =>
      rw [dropFirst]
      by_cases hx : p x
      · rw [if_pos hx, ih, List.filter_cons_of_pos hx, List.drop_succ_cons]
      · rw [if_neg hx, List.filter_cons_of_neg hx, ih, List.filter_cons_of_neg hx]

theorem length_dropFirst {k : ℕ} {xs : List α} (hk : k ≤ (xs.filter p).length) :
    (dropFirst p k xs).length = xs.length - k := by
  have hcount : ∀ ys : List α,
      ys.length = (ys.filter p).length + (ys.filter fun x => !p x).length := by
    intro ys
    rw [← List.countP_eq_length_filter, ← List.countP_eq_length_filter,
      List.length_eq_countP_add_countP p]
    simp only [Bool.not_eq_true, Bool.decide_eq_false]
  have hleft := hcount (dropFirst p k xs)
  have hall := hcount xs
  rw [filter_dropFirst, filter_not_dropFirst, List.length_drop] at hleft
  omega

theorem dropFirst_map {β : Type*} (f : β → α) (k : ℕ) (xs : List β) :
    dropFirst p k (xs.map f) = (dropFirst (fun x => p (f x)) k xs).map f := by
  induction xs generalizing k with
  | nil => cases k <;> rfl
  | cons x xs ih =>
    cases k with
    | zero => rfl
    | succ k =>
      rw [List.map_cons, dropFirst, dropFirst]
      split_ifs
      · exact ih k
      · rw [ih (k + 1), List.map_cons]

theorem countP_dropFirst (q : α → Bool) (k : ℕ) (xs : List α) :
    xs.countP q = (dropFirst p k xs).countP q + ((xs.filter p).take k).countP q := by
  induction xs generalizing k with
  | nil => cases k <;> rfl
  | cons x xs ih =>
    cases k with
    | zero => rw [dropFirst_zero, List.take_zero, List.countP_nil, Nat.add_zero]
    | succ k =>
      rw [dropFirst]
      by_cases hx : p x
      · rw [if_pos hx, List.filter_cons_of_pos hx, List.take_succ_cons, List.countP_cons,
          List.countP_cons, ih k, Nat.add_assoc]
      · rw [if_neg hx, List.filter_cons_of_neg hx, List.countP_cons, List.countP_cons, ih (k + 1)]
        omega

theorem exists_of_findIdx? {xs : List α} {i : ℕ} (h : xs.findIdx? p = some i) :
    xs.eraseIdx i = xs.eraseP p ∧ (xs.filter p).length ≠ 0 := by
  have herase : xs.eraseP p = _ := List.eraseP_eq_eraseIdx
  rw [h] at herase
  refine ⟨herase.symm, ?_⟩
  obtain ⟨hlt, hp, -⟩ := List.findIdx?_eq_some_iff_getElem.mp h
  exact (List.length_pos_of_mem (List.mem_filter.mpr ⟨List.getElem_mem hlt, hp⟩)).ne'

theorem makeRoom_eq {cap n : ℕ} {xs : List α} (hn : xs.length ≤ n) :
    makeRoom p cap n xs =
      if xs.length + 1 - cap ≤ (xs.filter p).length then
        some (dropFirst p (xs.length + 1 - cap) xs)
      else none := by
  induction n generalizing xs with
  | zero =>
    obtain rfl := List.length_eq_zero_iff.mp (Nat.le_zero.mp hn)
    rw [makeRoom, List.length_nil, List.filter_nil, List.length_nil]
    by_cases hcap : 0 < cap
    · rw [if_pos hcap, Nat.sub_eq_zero_of_le hcap, if_pos (Nat.zero_le _), dropFirst_zero]
    · rw [if_neg hcap, if_neg (by omega)]
  | succ n ih =>
    rw [makeRoom]
    by_cases hcap : xs.length < cap
    · rw [if_pos hcap, Nat.sub_eq_zero_of_le hcap, if_pos (Nat.zero_le _), dropFirst_zero]
    · rw [if_neg hcap]
      cases hfind : xs.findIdx? p with
      | none =>
        have hnone : xs.filter p = [] := by
          refine List.filter_eq_nil_iff.mpr fun x hx => ?_
          rw [List.findIdx?_eq_none_iff.mp hfind x hx]
          exact Bool.false_ne_true
        rw [hnone, if_neg (by rw [List.length_nil]; omega)]
        rfl
      | some i =>
        obtain ⟨herase, hsome⟩ := exists_of_findIdx? hfind
        have hfilter : (xs.eraseP p).filter p = (xs.filter p).drop 1 := by
          rw [← filter_dropFirst, dropFirst_succ, dropFirst_zero]
        have hlength : (xs.eraseP p).length = xs.length - 1 := by
          have h := length_dropFirst (k := 1) (Nat.one_le_iff_ne_zero.mpr hsome)
          rwa [dropFirst_succ, dropFirst_zero] at h
        have hpos : 0 < xs.length :=
          (Nat.pos_of_ne_zero hsome).trans_le (List.length_filter_le p xs)
        rw [Option.bind_some, herase, ih (by omega), hfilter, hlength, List.length_drop]
        have hone : xs.length + 1 - cap = (xs.length - 1 + 1 - cap) + 1 := by omega
        rw [hone, dropFirst_succ]
        congr 1
        exact propext ⟨fun _ => by omega, fun _ => by omega⟩

end JamStream.Foundations.Evict
