import Mathlib

/-! Finding and replacing a pattern in a sequence, for patterns with a mark of their own: the
mark begins the pattern and stands nowhere else in it, so occurrences never overlap. -/

namespace JamStream.Foundations
variable {α : Type*} [DecidableEq α]

/-- What stands before the first occurrence of a pattern, and what after it. -/
def splitFirst (pat : List α) : List α → Option (List α × List α)
  | [] => if pat.isEmpty then some ([], []) else none
  | x :: xs =>
    if pat.isPrefixOf (x :: xs) then some ([], (x :: xs).drop pat.length)
    else (splitFirst pat xs).map fun r => (x :: r.1, r.2)

/-- Every occurrence replaced, from the first to the last; `skip` elements still belong to
the last one. -/
def replaceFrom (pat by_ : List α) : ℕ → List α → List α
  | _, [] => []
  | skip + 1, _ :: xs => replaceFrom pat by_ skip xs
  | 0, x :: xs =>
    if pat.isPrefixOf (x :: xs) then by_ ++ replaceFrom pat by_ (pat.length - 1) xs
    else x :: replaceFrom pat by_ 0 xs

def replace (pat by_ xs : List α) : List α := replaceFrom pat by_ 0 xs

variable {pat by_ a b t rest : List α} {mark : α}

theorem splitFirst_sound {xs : List α} (h : splitFirst pat xs = some (a, b)) :
    xs = a ++ pat ++ b := by
  induction xs generalizing a with
  | nil =>
    rw [splitFirst] at h
    split_ifs at h with hpat
    obtain ⟨rfl, rfl⟩ := Prod.mk.inj (Option.some.inj h)
    rw [List.isEmpty_iff.mp hpat]
    rfl
  | cons x xs ih =>
    rw [splitFirst] at h
    split_ifs at h with hpat
    · obtain ⟨rfl, rfl⟩ := Prod.mk.inj (Option.some.inj h)
      obtain ⟨tail, htail⟩ := List.isPrefixOf_iff_prefix.mp hpat
      rw [← htail, List.drop_left]
      rfl
    · obtain ⟨⟨a', b'⟩, hr, heq⟩ := Option.map_eq_some_iff.mp h
      obtain ⟨rfl, rfl⟩ := Prod.mk.inj heq
      rw [ih hr]
      rfl

theorem splitFirst_here (hpat : pat ≠ []) : splitFirst pat (pat ++ rest) = some ([], rest) := by
  cases pat with
  | nil => exact absurd rfl hpat
  | cons x pat =>
    rw [List.cons_append, splitFirst, if_pos, ← List.cons_append, List.drop_left]
    exact List.isPrefixOf_iff_prefix.mpr (List.prefix_append (x :: pat) rest)

theorem not_prefix_of_ne {x : α} (hx : mark ≠ x) (pat xs : List α) :
    (mark :: pat).isPrefixOf (x :: xs) = false := by
  rw [List.isPrefixOf, beq_eq_false_iff_ne.mpr hx, Bool.false_and]

theorem splitFirst_skip (ht : mark ∉ t) :
    splitFirst (mark :: pat) (t ++ rest) =
      (splitFirst (mark :: pat) rest).map fun r => (t ++ r.1, r.2) := by
  induction t with
  | nil => exact Option.map_id'.symm
  | cons x t ih =>
    rw [List.mem_cons, not_or] at ht
    rw [List.cons_append, splitFirst, not_prefix_of_ne ht.1, ih ht.2, Option.map_map]
    rfl

theorem splitFirst_pass (ht : mark ∉ t) (hne : ¬pat <+: t ++ rest) :
    splitFirst (mark :: pat) (mark :: t ++ rest) =
      (splitFirst (mark :: pat) rest).map fun r => (mark :: t ++ r.1, r.2) := by
  have hno : (mark :: pat).isPrefixOf (mark :: (t ++ rest)) = false := by
    rw [Bool.eq_false_iff, ne_eq, List.isPrefixOf_iff_prefix]
    exact fun h => hne (List.prefix_cons_inj mark |>.mp h)
  rw [List.cons_append, splitFirst, hno, splitFirst_skip ht, Option.map_map]
  rfl

/-- No occurrence begins in a part without one, when what follows begins with nothing that
could carry one on. -/
theorem splitFirst_append (ha : splitFirst pat a = none)
    (hrest : ∀ c ∈ rest.head?, c ∉ pat.tail) :
    splitFirst pat (a ++ rest) = (splitFirst pat rest).map fun r => (a ++ r.1, r.2) := by
  induction a with
  | nil => exact Option.map_id'.symm
  | cons x a ih =>
    rw [splitFirst] at ha
    split_ifs at ha with hx
    have hnext := Option.map_eq_none_iff.mp ha
    have hno : ¬pat <+: x :: (a ++ rest) := by
      intro h
      rcases List.prefix_or_prefix_of_prefix h (List.prefix_append (x :: a) rest) with hin | hout
      · exact hx (List.isPrefixOf_iff_prefix.mpr hin)
      · obtain ⟨more, rfl⟩ := hout
        cases more with
        | nil => exact hx (by rw [List.append_nil]; exact List.isPrefixOf_iff_prefix.mpr List.prefix_rfl)
        | cons c more =>
          obtain ⟨rest', hrest'⟩ := (List.prefix_append_right_inj (x :: a)).mp h
          have hhead : c ∈ rest.head? := by rw [← hrest']; rfl
          exact hrest c hhead (List.mem_append_right a List.mem_cons_self)
    rw [List.cons_append, splitFirst, if_neg (mt List.isPrefixOf_iff_prefix.mp hno), ih hnext,
      Option.map_map]
    rfl

theorem splitFirst_of_prefix (h : splitFirst pat (a ++ t) = none) : splitFirst pat a = none := by
  induction a with
  | nil =>
    cases pat with
    | nil =>
      cases t <;> cases h
    | cons p pat => rfl
  | cons x a ih =>
    rw [List.cons_append, splitFirst] at h
    split_ifs at h with hx
    have hno : ¬pat.isPrefixOf (x :: a) = true := by
      intro hpat
      obtain ⟨tail, htail⟩ := List.isPrefixOf_iff_prefix.mp hpat
      refine hx (List.isPrefixOf_iff_prefix.mpr ⟨tail ++ t, ?_⟩)
      rw [← List.append_assoc, htail, List.cons_append]
    rw [splitFirst, if_neg hno, ih (Option.map_eq_none_iff.mp h)]
    rfl

theorem splitFirst_before (hpat : pat ≠ []) {xs : List α} (h : splitFirst pat xs = some (a, b)) :
    splitFirst pat a = none := by
  have hnil : splitFirst pat [] = none := by
    cases pat with
    | nil => exact absurd rfl hpat
    | cons p pat => rfl
  induction xs generalizing a with
  | nil =>
    rw [hnil] at h
    cases h
  | cons x xs ih =>
    have hwhole := splitFirst_sound h
    rw [splitFirst] at h
    split_ifs at h with hx
    · obtain ⟨rfl, rfl⟩ := Prod.mk.inj (Option.some.inj h)
      exact hnil
    · obtain ⟨⟨a', b'⟩, hr, heq⟩ := Option.map_eq_some_iff.mp h
      obtain ⟨rfl, rfl⟩ := Prod.mk.inj heq
      have hno : ¬pat.isPrefixOf (x :: a') = true := by
        intro hin
        obtain ⟨tail, htail⟩ := List.isPrefixOf_iff_prefix.mp hin
        refine hx (List.isPrefixOf_iff_prefix.mpr ⟨tail ++ pat ++ b', ?_⟩)
        rw [hwhole, ← htail, List.append_assoc, List.append_assoc, List.append_assoc]
      rw [splitFirst, if_neg hno, ih hr]
      rfl

theorem replaceFrom_skip (skipped rest : List α) :
    replaceFrom pat by_ skipped.length (skipped ++ rest) = replaceFrom pat by_ 0 rest := by
  induction skipped with
  | nil => rfl
  | cons x skipped ih => exact ih

theorem replace_here (hpat : pat ≠ []) :
    replace pat by_ (pat ++ rest) = by_ ++ replace pat by_ rest := by
  cases pat with
  | nil => exact absurd rfl hpat
  | cons x pat =>
    have hhere : (x :: pat).isPrefixOf (x :: (pat ++ rest)) :=
      List.isPrefixOf_iff_prefix.mpr (List.prefix_append (x :: pat) rest)
    show replaceFrom _ _ 0 (x :: (pat ++ rest)) = _
    rw [replaceFrom, if_pos hhere, List.length_cons, Nat.add_sub_cancel, replaceFrom_skip]
    rfl

theorem replace_pass {x : α} (hno : ¬pat <+: x :: rest) :
    replace pat by_ (x :: rest) = x :: replace pat by_ rest := by
  show replaceFrom _ _ 0 (x :: rest) = _
  rw [replaceFrom, if_neg (mt List.isPrefixOf_iff_prefix.mp hno)]
  rfl

theorem replace_skip (ht : mark ∉ t) :
    replace (mark :: pat) by_ (t ++ rest) = t ++ replace (mark :: pat) by_ rest := by
  induction t with
  | nil => rfl
  | cons x t ih =>
    rw [List.mem_cons, not_or] at ht
    have hno : ¬mark :: pat <+: x :: (t ++ rest) := fun h => ht.1 (List.cons_prefix_cons.mp h).1
    rw [List.cons_append, replace_pass hno, ih ht.2]
    rfl

theorem replace_block (ht : mark ∉ t) (hne : ¬pat <+: t ++ rest) :
    replace (mark :: pat) by_ (mark :: t ++ rest) =
      mark :: t ++ replace (mark :: pat) by_ rest := by
  have hno : ¬mark :: pat <+: mark :: (t ++ rest) := fun h => hne (List.cons_prefix_cons.mp h).2
  rw [List.cons_append, replace_pass hno, replace_skip ht]
  rfl

omit [DecidableEq α] in
/-- Two texts that end with the first of the same mark are told by what stands before it. -/
theorem eq_of_append_mark {x y : List α} (ha : mark ∉ a) (hb : mark ∉ b)
    (h : a ++ mark :: x = b ++ mark :: y) : a = b := by
  induction a generalizing b with
  | nil =>
    cases b with
    | nil => rfl
    | cons c b => exact absurd ((List.cons.inj h).1 ▸ List.mem_cons_self) hb
  | cons c a ih =>
    cases b with
    | nil => exact absurd ((List.cons.inj h).1 ▸ List.mem_cons_self) ha
    | cons d b =>
      obtain ⟨hcd, hrest⟩ := List.cons.inj h
      rw [hcd, ih (List.not_mem_of_not_mem_cons ha) (List.not_mem_of_not_mem_cons hb) hrest]

omit [DecidableEq α] in
theorem not_prefix_of_mark {u : List α} (hpat : mark ∉ pat) (hu : mark ∉ u) (hne : pat ≠ u) :
    ¬pat ++ [mark] <+: u ++ [mark] ++ rest := by
  rintro ⟨tail, htail⟩
  rw [List.append_assoc, List.append_assoc] at htail
  exact hne (eq_of_append_mark hpat hu htail)

end JamStream.Foundations
